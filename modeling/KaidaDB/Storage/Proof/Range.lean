import KaidaDB.Storage.Range
import KaidaDB.Storage.Proof.Calls

/-!
# Range readers and the plain slice

`Cuts m offset stop idx pieces parts`: the pieces are the contents of the chunks from `idx` on, and what
`chunkPart` takes from them are the `parts`. For an object with contents `d` the chunks that a range
crosses have as parts that range of `d`, cut where a chunk begins (`Describes.cuts`, `RangeParts`); each
reader returns the parts of the chunks it reads.
-/

namespace KaidaDB

open Effects

variable {X : Crates} {D : Set Bytes} {c : View} {need : ChunkId → Int} {logged : Bool}

/-- `d[offset .. min(offset + length, |d|)]`, to the end if the length is 0. -/
def range (d : Bytes) (offset length : Nat) : Bytes :=
  (d.take (if length = 0 then d.length else offset + length)).drop offset

/-- The range in pieces, cut where a chunk begins. -/
def rangePieces (n : Nat) (d : Bytes) (offset length : Nat) : List Bytes :=
  Slices.slicesAfter (n - offset % n) n (range d offset length)

theorem flatten_rangePieces {n : Nat} (hn : 0 < n) (d : Bytes) (offset length : Nat) :
    (rangePieces n d offset length).flatten = range d offset length :=
  Slices.flatten_slicesAfter _ hn _

theorem length_rangePieces {n : Nat} (hn : 0 < n) (d : Bytes) (offset length : Nat) :
    ∀ p ∈ rangePieces n d offset length, 1 ≤ p.length ∧ p.length ≤ n :=
  Slices.length_slicesAfter (Nat.sub_pos_of_lt (Nat.mod_lt _ hn)) (Nat.sub_le _ _) _

inductive Cuts (m : MediaManifest) (offset stop : Nat) : Nat → List Bytes → List Bytes → Prop where
  | nil (idx : Nat) : Cuts m offset stop idx [] []
  | cons {idx : Nat} {piece part : Bytes} {pieces parts : List Bytes}
    (hpart : m.chunkPart offset stop idx piece = .ok part)
    (h : Cuts m offset stop (idx + 1) pieces parts) :
    Cuts m offset stop idx (piece :: pieces) (part :: parts)

theorem Cuts.length {m : MediaManifest} {offset stop idx : Nat} {pieces parts : List Bytes}
    (h : Cuts m offset stop idx pieces parts) : parts.length = pieces.length := by
  induction h with
  | nil => rfl
  | cons _ _ ih => exact congrArg (· + 1) ih

/-! ## The parts of a range -/

theorem sliceOf_ok {α : Type} {data : List α} {start stop : Nat} (h1 : start ≤ stop)
    (h2 : stop ≤ data.length) : sliceOf data start stop = .ok ((data.take stop).drop start) := by
  rw [sliceOf, if_neg (by omega), if_neg (by omega)]

theorem wrappingSub_le {a b : Nat} (h : b ≤ a) : wrappingSub a b = a - b := if_pos h

section
variable {m : MediaManifest} {d : Bytes} {offset stop : Nat} (hn : 0 < m.chunkSize)
  (hlt : offset < stop) (hle : stop ≤ d.length)
include hn hlt hle

omit hle in
/-- The chunk at `idx` begins before the end of the range and ends after its start; only the last one
reaches the end. -/
theorem chunk_bounds {idx : Nat} (h1 : m.startChunkIdx offset ≤ idx) (h2 : idx ≤ m.endChunkIdx stop) :
    idx * m.chunkSize < stop ∧ offset < idx * m.chunkSize + m.chunkSize ∧
      (idx = m.endChunkIdx stop → stop ≤ idx * m.chunkSize + m.chunkSize) ∧
      (idx ≠ m.endChunkIdx stop → idx * m.chunkSize + m.chunkSize < stop) ∧
      (idx = m.startChunkIdx offset → idx * m.chunkSize ≤ offset) ∧
      (idx ≠ m.startChunkIdx offset → offset < idx * m.chunkSize) := by
  have hend : m.endChunkIdx stop = (stop - 1) / m.chunkSize := by
    rw [MediaManifest.endChunkIdx, wrappingSub_le (by omega)]
  have hstart : m.startChunkIdx offset = offset / m.chunkSize := rfl
  have hsucc : ∀ i, (i + 1) * m.chunkSize = i * m.chunkSize + m.chunkSize := fun i => Nat.succ_mul _ _
  have hend1 := Nat.div_mul_le_self (stop - 1) m.chunkSize
  have hend2 := Nat.lt_div_mul_add (a := stop - 1) hn
  have hstart1 := Nat.div_mul_le_self offset m.chunkSize
  have hstart2 := Nat.lt_div_mul_add (a := offset) hn
  rw [← hend] at hend1 hend2
  rw [← hstart] at hstart1 hstart2
  have hidx1 := Nat.mul_le_mul_right m.chunkSize h1
  have hidx2 := Nat.mul_le_mul_right m.chunkSize h2
  refine ⟨by omega, by omega, fun h => by subst h; omega, fun h => ?_, fun h => by subst h; omega,
    fun h => ?_⟩
  · have hlt' : idx + 1 ≤ m.endChunkIdx stop := by omega
    have := Nat.mul_le_mul_right m.chunkSize hlt'
    have := hsucc idx
    omega
  · have hlt' : m.startChunkIdx offset + 1 ≤ idx := by omega
    have := Nat.mul_le_mul_right m.chunkSize hlt'
    have := hsucc (m.startChunkIdx offset)
    omega

/-- The chunk at `idx` is cut where the range begins and where it ends. -/
theorem chunkPart_ok {idx : Nat} (h1 : m.startChunkIdx offset ≤ idx) (h2 : idx ≤ m.endChunkIdx stop) :
    m.chunkPart offset stop idx ((d.drop (idx * m.chunkSize)).take m.chunkSize)
      = .ok (((d.take stop).take ((idx + 1) * m.chunkSize)).drop
          (max offset (idx * m.chunkSize))) := by
  obtain ⟨hb, ho, hlast, hmid, hfirst, hlater⟩ := chunk_bounds hn hlt h1 h2
  rw [MediaManifest.chunkPart, Nat.succ_mul]
  generalize idx * m.chunkSize = begin at *
  generalize m.chunkSize = n at *
  have hlen : ((d.drop begin).take n).length = min n (d.length - begin) := by
    rw [List.length_take, List.length_drop]
  have hstart : (if idx = m.startChunkIdx offset then offset - begin else 0)
      = max offset begin - begin := by
    split_ifs with h
    · omega
    · have := hlater h
      omega
  have hstop : min (if idx = m.endChunkIdx stop then wrappingSub stop begin
      else ((d.drop begin).take n).length) ((d.drop begin).take n).length = min (stop - begin) n := by
    rw [wrappingSub_le (by omega), hlen]
    split_ifs with h
    · have := hlast h
      omega
    · have := hmid h
      omega
  rw [hstart, hstop, sliceOf_ok (by omega) (by omega), List.take_take, List.take_take,
    show min (min (stop - begin) n) n = min (begin + n) stop - begin by omega, ← List.drop_take,
    List.drop_drop, show begin + (max offset begin - begin) = max offset begin by omega]

/-- The parts of the chunks after the first one. -/
theorem cuts_later : ∀ (k idx : Nat), m.startChunkIdx offset < idx → idx + k = m.endChunkIdx stop + 1 →
    Cuts m offset stop idx ((Slices.slices m.chunkSize (d.drop (idx * m.chunkSize))).take k)
      (Slices.slices m.chunkSize ((d.take stop).drop (idx * m.chunkSize)))
  | 0, idx, h1, hk => by
    have hlast := (chunk_bounds hn hlt (by omega) (Nat.le_refl (m.endChunkIdx stop))).2.2.1 rfl
    have hidx : idx * m.chunkSize = m.endChunkIdx stop * m.chunkSize + m.chunkSize := by
      rw [show idx = m.endChunkIdx stop + 1 by omega, Nat.succ_mul]
    rw [List.take_zero, List.drop_of_length_le (by rw [List.length_take]; omega)]
    exact .nil idx
  | k + 1, idx, h1, hk => by
    obtain ⟨hb, -, -, -, -, hlater⟩ := chunk_bounds hn hlt (Nat.le_of_lt h1) (show idx ≤ _ by omega)
    have hoffset := hlater (by omega)
    have hpart := chunkPart_ok hn hlt hle (Nat.le_of_lt h1) (show idx ≤ _ by omega)
    rw [Nat.max_eq_right (by omega), List.drop_take, Nat.succ_mul, Nat.add_sub_cancel_left] at hpart
    have hnext : ∀ l : Bytes, (l.drop (idx * m.chunkSize)).drop m.chunkSize
        = l.drop ((idx + 1) * m.chunkSize) := fun l => by rw [List.drop_drop, Nat.succ_mul]
    have hne : ∀ {l : Bytes}, stop ≤ l.length → l.drop (idx * m.chunkSize) ≠ [] := fun hl => by
      rw [ne_eq, List.drop_eq_nil_iff]
      omega
    rw [Slices.slices_cons hn (hne hle), List.take_succ_cons, hnext,
      Slices.slices_cons hn (hne (l := d.take stop) (by rw [List.length_take]; omega)), hnext]
    exact .cons hpart (cuts_later k (idx + 1) (by omega) (by omega))

/-- The parts of the chunks are the range, cut where a chunk begins. -/
theorem cuts_range {k : Nat} (hk : m.startChunkIdx offset + k = m.endChunkIdx stop + 1) :
    Cuts m offset stop (m.startChunkIdx offset)
      ((Slices.slices m.chunkSize (d.drop (m.startChunkIdx offset * m.chunkSize))).take k)
      (Slices.slicesAfter (m.chunkSize - offset % m.chunkSize) m.chunkSize ((d.take stop).drop offset)) := by
  have h0 : m.startChunkIdx offset ≤ m.endChunkIdx stop := by
    rw [MediaManifest.endChunkIdx, wrappingSub_le (by omega)]
    exact Nat.div_le_div_right (by omega)
  obtain ⟨hb, -, -, -, hfirst, -⟩ := chunk_bounds hn hlt (Nat.le_refl _) h0
  have hbegin := hfirst rfl
  have hmod : offset % m.chunkSize = offset - m.startChunkIdx offset * m.chunkSize := by
    rw [MediaManifest.startChunkIdx, Nat.mul_comm, Nat.mod_eq_sub_mul_div]
  have hless := Nat.mod_lt offset hn
  have hpart := chunkPart_ok hn hlt hle (Nat.le_refl _) h0
  rw [Nat.max_eq_left hbegin, List.drop_take, Nat.succ_mul,
    show m.startChunkIdx offset * m.chunkSize + m.chunkSize - offset
      = m.chunkSize - offset % m.chunkSize by omega] at hpart
  obtain ⟨k, rfl⟩ : ∃ j, k = j + 1 := ⟨k - 1, by omega⟩
  rw [Slices.slices_cons hn (by rw [ne_eq, List.drop_eq_nil_iff]; omega), List.take_succ_cons, List.drop_drop,
    ← Nat.succ_mul, Slices.slicesAfter_cons _ _ (by rw [ne_eq, List.drop_eq_nil_iff, List.length_take]; omega),
    List.drop_drop, show offset + (m.chunkSize - offset % m.chunkSize)
      = (m.startChunkIdx offset + 1) * m.chunkSize by rw [Nat.succ_mul]; omega]
  exact .cons hpart (cuts_later hn hlt hle k _ (Nat.lt_succ_self _) (by omega))

end

/-! ## The readers -/

/-- What the readers need of the chunks of an object. -/
def Readable (X : Crates) (logged : Bool) (c : View) (pieces : List Bytes) : Prop :=
  ∀ p ∈ pieces, Does (lens X logged) (BlobStore.readChunk X (ChunkId.fromData X p)) c (.ok p) c

theorem Readable.drop {n : Nat} {d : Bytes} (h : Readable X logged c (Slices.slices n d)) (hn : 0 < n)
    (i : Nat) : Readable X logged c (Slices.slices n (d.drop (i * n))) := by
  rw [← Slices.drop_slices hn]
  exact fun p hp => h p (List.mem_of_mem_drop hp)

theorem Readable.take {pieces : List Bytes} (h : Readable X logged c pieces) (k : Nat) :
    Readable X logged c (pieces.take k) := fun p hp => h p (List.mem_of_mem_take hp)

/-- The chunks of an object have its pieces as contents. -/
theorem Describes.readable (hs : Sound X D c need) (hneed : ∀ a, 0 ≤ need a)
    (hinj : Set.InjOn X.sha256 D) {key : String} {m : MediaManifest} {d : Bytes}
    (hm : c.index.manifests[key]? = some m) (hd : Describes X D m d) :
    Readable X logged c (Slices.slices m.chunkSize d) := by
  intro p hp
  have hmem : ChunkId.fromData X p ∈ m.chunks := by
    rw [hd.chunks]
    exact List.mem_map_of_mem hp
  have hcount := List.count_pos_iff.2 hmem
  have hocc := count_le_occurrences hm (ChunkId.fromData X p)
  have hpos := hneed (ChunkId.fromData X p)
  obtain ⟨d', hd', hid, hread⟩ := @does_readChunk X D logged _ _ hs
    (ChunkId.fromData X p) (by omega)
  rw [hinj (hd.known p hp) hd' (congrArg ChunkId.bytes hid)]
  rw [hinj (hd.known p hp) hd' (congrArg ChunkId.bytes hid)] at hread
  exact hread

section
variable {m : MediaManifest} {offset stop : Nat}

theorem does_attempt {α : Type} {x : M α} {a : α} {c' : View}
    (h : Does (lens X logged) x c (.ok a) c') :
    Does (lens X logged) (attempt x) c (.ok (.ok a)) c' :=
  Does.tryCatch_ok (Does.map _ h)

theorem does_readParts : ∀ (k : Nat) {idx : Nat} {pieces parts : List Bytes},
    Readable X logged c pieces → idx + k = m.endChunkIdx stop + 1 →
    Cuts m offset stop idx (pieces.take k) parts →
    Does (lens X logged) (StorageEngine.readParts X m offset stop idx
      (pieces.map (ChunkId.fromData X))) c (.ok parts.flatten) c
  | _, _, [], _, _, _, hcuts => by
    rw [List.take_nil] at hcuts
    cases hcuts
    exact Does.pure _
  | 0, idx, p :: ps, _, _, hk, hcuts => by
    rw [List.take_zero] at hcuts
    cases hcuts
    rw [List.map_cons, StorageEngine.readParts, if_pos (by omega)]
    exact Does.pure _
  | k + 1, idx, p :: ps, _, hread, hk, hcuts => by
    rw [List.take_succ_cons] at hcuts
    cases hcuts with
    | cons hpart h =>
      rw [List.map_cons, StorageEngine.readParts, if_neg (by omega)]
      refine Does.bind (hread p List.mem_cons_self) ?_
      rw [hpart, List.flatten_cons]
      refine Does.bind (Does.pure _) (Does.bind ?_ (Does.pure _))
      exact does_readParts k (fun q hq => hread q (List.mem_cons_of_mem _ hq)) (by omega) h

theorem does_sendParts : ∀ {idx : Nat} {pieces parts : List Bytes},
    Readable X logged c pieces → Cuts m offset stop idx pieces parts →
    Does (lens X logged) (StorageEngine.sendParts X m offset stop idx
      (pieces.map (ChunkId.fromData X))) c (.ok (parts.map .ok)) c
  | _, _, _, _, .nil _ => Does.pure _
  | idx, p :: ps, part :: parts, hread, .cons hpart h => by
    rw [List.map_cons, StorageEngine.sendParts]
    refine Does.bind (does_attempt (hread p List.mem_cons_self)) ?_
    dsimp only
    rw [hpart]
    refine Does.bind ?_ (Does.pure _)
    exact does_sendParts (fun q hq => hread q (List.mem_cons_of_mem _ hq)) h

end

/-- The chunks of a range that is not empty: what the readers cut from them is the range. -/
theorem Describes.cuts {m : MediaManifest} {d : Bytes} (hd : Describes X D m d) {offset length : Nat}
    (hlen : offset + length < 2 ^ 64) (hoff : offset < d.length) :
    let stop := rangeEnd m.totalSize offset length
    let start := m.startChunkIdx offset
    ∃ k, start + k = m.endChunkIdx stop + 1 ∧ offset < stop ∧
      m.endChunkIdx stop < m.chunks.length ∧
      Cuts m offset stop start ((Slices.slices m.chunkSize (d.drop (start * m.chunkSize))).take k)
        (rangePieces m.chunkSize d offset length) := by
  intro stop start
  have hstop : stop = if length = 0 then d.length else min (offset + length) d.length := by
    rw [show stop = rangeEnd m.totalSize offset length from rfl, rangeEnd, hd.total,
      Nat.mod_eq_of_lt hlen]
  have hlt : offset < stop := by
    rw [hstop]
    split_ifs <;> omega
  have hle : stop ≤ d.length := by
    rw [hstop]
    split_ifs <;> omega
  have hend : m.endChunkIdx stop = (stop - 1) / m.chunkSize := by
    rw [MediaManifest.endChunkIdx, wrappingSub_le (by omega)]
  have h0 : start ≤ m.endChunkIdx stop := by
    rw [hend]
    exact Nat.div_le_div_right (by omega)
  have hk : start + (m.endChunkIdx stop + 1 - start) = m.endChunkIdx stop + 1 := by omega
  have hrange : range d offset length = (d.take stop).drop offset := by
    rw [range, hstop]
    split_ifs
    · rfl
    · rw [← List.take_take, List.take_length]
  refine ⟨_, hk, hlt, ?_, ?_⟩
  · -- the last chunk of the range is one of the object
    by_contra hnot
    have hnil := List.drop_of_length_le (Nat.le_of_not_lt hnot)
    rw [hd.chunks, ← List.map_drop, Slices.drop_slices hd.size, List.map_eq_nil_iff] at hnil
    have hbefore := (chunk_bounds hd.size hlt h0 (Nat.le_refl _)).1
    rw [Slices.slices_cons hd.size (by rw [ne_eq, List.drop_eq_nil_iff]; omega)] at hnil
    cases hnil
  · rw [rangePieces, hrange]
    exact cuts_range hd.size hlt hle hk

/-- A range that begins at the end of the object or later. -/
theorem range_of_le {d : Bytes} {offset : Nat} (h : d.length ≤ offset) (length : Nat) :
    range d offset length = [] :=
  List.drop_of_length_le ((List.length_take_le' _ _).trans h)

/-- The parts of a range of the object: those of the chunks it crosses, and none if it begins at the
end of the object or later. -/
inductive RangeParts (m : MediaManifest) (d : Bytes) (offset length : Nat) : List Bytes → Prop where
  | outside (hoff : d.length ≤ offset) : RangeParts m d offset length []
  | inside {k : Nat} {parts : List Bytes} (hoff : offset < d.length)
    (hk : m.startChunkIdx offset + k = m.endChunkIdx (rangeEnd m.totalSize offset length) + 1)
    (hlt : offset < rangeEnd m.totalSize offset length)
    (hin : m.endChunkIdx (rangeEnd m.totalSize offset length) < m.chunks.length)
    (hcuts : Cuts m offset (rangeEnd m.totalSize offset length) (m.startChunkIdx offset)
      ((Slices.slices m.chunkSize (d.drop (m.startChunkIdx offset * m.chunkSize))).take k) parts) :
    RangeParts m d offset length parts

theorem Describes.rangeParts {m : MediaManifest} {d : Bytes} (hd : Describes X D m d)
    {offset length : Nat} (hlen : offset + length < 2 ^ 64) :
    RangeParts m d offset length (rangePieces m.chunkSize d offset length) := by
  by_cases hoff : d.length ≤ offset
  · rw [rangePieces, range_of_le hoff]
    exact .outside hoff
  · obtain ⟨k, hk, hlt, hin, hcuts⟩ := hd.cuts hlen (Nat.lt_of_not_le hoff)
    exact .inside (Nat.lt_of_not_le hoff) hk hlt hin hcuts

/-- The chunks from a given one on. -/
theorem Describes.drop_chunks {m : MediaManifest} {d : Bytes} (hd : Describes X D m d) (i : Nat) :
    m.chunks.drop i
      = (Slices.slices m.chunkSize (d.drop (i * m.chunkSize))).map (ChunkId.fromData X) := by
  rw [hd.chunks, ← List.map_drop, Slices.drop_slices hd.size]

section
variable {key : String} {m : MediaManifest} {d : Bytes} (hm : c.index.manifests[key]? = some m)
  (hd : Describes X D m d) (hread : Readable X logged c (Slices.slices m.chunkSize d))
  {offset length : Nat} {parts : List Bytes} (h : RangeParts m d offset length parts)
include hm hd hread h

theorem does_readRange :
    Does (lens X logged) (StorageEngine.readRange X key offset length) c (.ok parts.flatten) c := by
  have hsize := hd.size
  refine Does.bind does_getManifest ?_
  rw [hm]
  dsimp only
  rw [hd.total]
  cases h with
  | outside hoff =>
    rw [if_pos hoff]
    exact Does.pure _
  | inside hoff hk hlt hin hcuts =>
    rw [hd.total] at hk hlt hcuts
    rw [if_neg (by omega), if_neg (by omega), if_neg (by omega), hd.drop_chunks]
    exact does_readParts _ (hread.drop hsize _) hk hcuts

/-- The pieces that are sent are the parts of the range. -/
theorem does_stream :
    Does (lens X logged) (StorageEngine.stream X key offset length) c (.ok (parts.map .ok)) c := by
  have hsize := hd.size
  refine Does.bind does_getManifest ?_
  rw [hm]
  dsimp only
  rw [hd.total]
  cases h with
  | outside hoff =>
    rw [if_pos hoff]
    exact Does.pure _
  | inside hoff hk hlt hin hcuts =>
    rw [hd.total] at hk hlt hin hcuts
    have hlast : min (m.endChunkIdx (rangeEnd d.length offset length))
        (wrappingSub m.chunks.length 1) = m.endChunkIdx (rangeEnd d.length offset length) := by
      rw [wrappingSub_le (by omega)]
      omega
    rw [if_neg (by omega), if_neg (by omega), hlast, ← hk, sliceOf_ok (by omega) (by omega),
      List.drop_take, Nat.add_sub_cancel_left, hd.drop_chunks, ← List.map_take]
    refine Does.bind (Does.pure _) ?_
    exact does_sendParts ((hread.drop hsize _).take _) hcuts

end

end KaidaDB
