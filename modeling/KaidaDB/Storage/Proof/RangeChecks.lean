import KaidaDB.Storage.RangeChecks
import KaidaDB.Storage.Proof.Range

/-!
# Requests whose arithmetic fits

For an object of the store, the sum of offset and length is all that can overflow: if it fits, every
other sum, difference and slice of the three readers does (`RangeReader.parts_ok`), whether they are
built with overflow checks or not.
-/

namespace KaidaDB

open Effects

variable {X : Crates} {D : Set Bytes} {m : MediaManifest} {d : Bytes} {offset length : Nat}

theorem addU64_ok (checks : Bool) {a b : Nat} (h : a + b < 2 ^ 64) : addU64 checks a b = .ok (a + b) :=
  if_pos h

theorem subU64_ok (checks : Bool) {a b : Nat} (h : b ≤ a) : subU64 checks a b = .ok (a - b) := if_pos h

theorem rangeStop_ok (checks : Bool) (totalSize : Nat) (h : offset + length < 2 ^ 64) :
    rangeStop checks totalSize offset length = .ok (rangeEnd totalSize offset length) := by
  rw [rangeStop, rangeEnd, Nat.mod_eq_of_lt h, addU64_ok checks h]
  split_ifs <;> rfl

theorem rangeStop_overflow (totalSize : Nat) (hlen : length ≠ 0) (h : 2 ^ 64 ≤ offset + length) :
    rangeStop true totalSize offset length = .error (.panic "attempt to add with overflow") := by
  rw [rangeStop, if_neg hlen, addU64, if_neg (by omega)]
  rfl

theorem subU64_unchecked (a b : Nat) : subU64 false a b = .ok (wrappingSub a b) := by
  by_cases h : b ≤ a
  · rw [subU64_ok false h, wrappingSub_le h]
  · rw [subU64, if_neg h]
    rfl

/-- Without checks a chunk is cut as in a release build. -/
theorem cutChunk_unchecked (m : MediaManifest) (offset stop idx : Nat) (chunkData : Bytes) :
    cutChunk false m.chunkSize offset stop (m.startChunkIdx offset) (m.endChunkIdx stop) idx chunkData
      = m.chunkPart offset stop idx chunkData := by
  have hstart : (if idx = m.startChunkIdx offset then subU64 false offset (idx * m.chunkSize)
      else .ok 0) = .ok (if idx = m.startChunkIdx offset then offset - idx * m.chunkSize else 0) := by
    split_ifs with h
    · rw [subU64_ok false (h ▸ Nat.div_mul_le_self offset m.chunkSize)]
    · rfl
  have hstop : (if idx = m.endChunkIdx stop then subU64 false stop (idx * m.chunkSize)
      else .ok chunkData.length) = .ok (if idx = m.endChunkIdx stop
        then wrappingSub stop (idx * m.chunkSize) else chunkData.length) := by
    rw [subU64_unchecked]
    split_ifs <;> rfl
  unfold cutChunk MediaManifest.chunkPart
  dsimp only
  rw [hstart, hstop]
  rfl

section
variable {stop : Nat} (hn : 0 < m.chunkSize) (hlt : offset < stop) (checks : Bool)
include hn hlt

/-- Between the ends of a range no difference underflows. -/
theorem cutChunk_eq {idx : Nat} (h1 : m.startChunkIdx offset ≤ idx) (h2 : idx ≤ m.endChunkIdx stop)
    (chunkData : Bytes) :
    cutChunk checks m.chunkSize offset stop (m.startChunkIdx offset) (m.endChunkIdx stop) idx chunkData
      = m.chunkPart offset stop idx chunkData := by
  obtain ⟨hb, -, -, -, hfirst, -⟩ := chunk_bounds hn hlt h1 h2
  have hstart : (if idx = m.startChunkIdx offset then subU64 checks offset (idx * m.chunkSize)
      else .ok 0) = if idx = m.startChunkIdx offset then subU64 false offset (idx * m.chunkSize)
      else .ok 0 := by
    split_ifs with h
    · rw [subU64_ok checks (hfirst h), subU64_ok false (hfirst h)]
    · rfl
  have hstop : (if idx = m.endChunkIdx stop then subU64 checks stop (idx * m.chunkSize)
      else .ok chunkData.length) = if idx = m.endChunkIdx stop
        then subU64 false stop (idx * m.chunkSize) else .ok chunkData.length := by
    split_ifs
    · rw [subU64_ok checks (by omega), subU64_ok false (by omega)]
    · rfl
  rw [← cutChunk_unchecked]
  unfold cutChunk
  dsimp only
  rw [hstart, hstop]

theorem cutChunks_ok {idx : Nat} {pieces parts : List Bytes} (h : Cuts m offset stop idx pieces parts)
    (h1 : m.startChunkIdx offset ≤ idx) (h2 : idx + pieces.length ≤ m.endChunkIdx stop + 1) :
    cutChunks checks m.chunkSize offset stop (m.startChunkIdx offset) (m.endChunkIdx stop) idx pieces
      = .ok parts := by
  induction h with
  | nil idx => rfl
  | @cons idx piece part pieces parts hpart h ih =>
    rw [List.length_cons] at h2
    rw [cutChunks, cutChunk_eq hn hlt checks h1 (by omega), hpart, ih (by omega) (by omega)]
    rfl

end

/-- **A request whose sum fits.** Every reader gets through its arithmetic, and takes the range. -/
theorem RangeReader.parts_ok (hd : Describes X D m d) (checks : Bool) (reader : RangeReader)
    (hlen : offset + length < 2 ^ 64) {parts : List Bytes} (h : RangeParts m d offset length parts) :
    reader.parts checks m (Slices.slices m.chunkSize d) offset length = .ok parts := by
  unfold RangeReader.parts
  rw [rangeStop_ok checks m.totalSize hlen]
  cases h with
  | outside hoff =>
    show (if m.totalSize ≤ offset then pure [] else _ : Except Fail (List Bytes)) = _
    rw [if_pos (by rw [hd.total]; exact hoff)]
    rfl
  | @inside k _ hoff hk hlt hin hcuts =>
    generalize rangeEnd m.totalSize offset length = stop at *
    have hsize := hd.size
    have hcount : (Slices.slices m.chunkSize d).length = m.chunks.length := by
      rw [hd.chunks, List.length_map]
    have hend : m.endChunkIdx stop = (stop - 1) / m.chunkSize := by
      rw [MediaManifest.endChunkIdx, wrappingSub_le (by omega)]
    have htake : ((Slices.slices m.chunkSize d).take (m.endChunkIdx stop + 1)).drop
        (m.startChunkIdx offset) = (Slices.slices m.chunkSize
          (d.drop (m.startChunkIdx offset * m.chunkSize))).take k := by
      rw [List.drop_take, Slices.drop_slices hsize, ← hk, Nat.add_sub_cancel_left]
    have hmin : min (m.endChunkIdx stop) ((Slices.slices m.chunkSize d).length - 1)
        = m.endChunkIdx stop := by omega
    have hchunks : reader.chunks checks offset stop (m.startChunkIdx offset) (m.endChunkIdx stop)
        (Slices.slices m.chunkSize d) = .ok ((Slices.slices m.chunkSize
          (d.drop (m.startChunkIdx offset * m.chunkSize))).take k) := by
      rw [← htake]
      cases reader with
      | readRange =>
        rw [RangeReader.chunks, subU64_ok checks (by omega), if_neg (by omega)]
        rfl
      | stream =>
        rw [RangeReader.chunks, subU64_ok checks (by omega)]
        show sliceOf _ _ (min _ _ + 1) = _
        rw [hmin, sliceOf_ok (by omega) (by omega)]
      | streamMedia =>
        rw [RangeReader.chunks, subU64_ok checks (by omega)]
        show Except.ok ((List.take (min _ _ + 1) _).drop _) = _
        rw [hmin]
    show (if m.totalSize ≤ offset then pure [] else _ : Except Fail (List Bytes)) = _
    rw [if_neg (by rw [hd.total]; omega), if_neg (by omega), subU64_ok checks (by omega)]
    show (reader.chunks checks offset stop (m.startChunkIdx offset) ((stop - 1) / m.chunkSize) _
      >>= _) = _
    rw [← hend, hchunks]
    refine cutChunks_ok hsize hlt checks hcuts (Nat.le_refl _) ?_
    have hle := List.length_take_le k
      (Slices.slices m.chunkSize (d.drop (m.startChunkIdx offset * m.chunkSize)))
    exact hk ▸ Nat.add_le_add_left hle _

/-- A request whose sum is no `u64` is a panic of every reader. -/
theorem RangeReader.parts_overflow (reader : RangeReader) (m : MediaManifest) (pieces : List Bytes)
    (hoff : offset < 2 ^ 64) (h : 2 ^ 64 ≤ offset + length) :
    reader.parts true m pieces offset length = .error (.panic "attempt to add with overflow") := by
  unfold RangeReader.parts
  rw [rangeStop_overflow m.totalSize (by omega) h]
  rfl

end KaidaDB
