import KaidaDB.Api.Proof.StreamMedia
import KaidaDB.Storage.Proof.RangeChecks

/-!
# Ranges that a client asks for

`range_requests_iff`: for an object of the server, a request gets through the arithmetic of `read_range`,
`stream` and `stream_media` exactly if the sum of its offset and its length is a `u64`; then what they
return is the range.

`download_framing_iff`: the messages of a download carry consecutive pieces of the range, the last one
marked (`Framed`), exactly if there are no more of them than sequence numbers.
-/

namespace KaidaDB

open Effects

variable {X : Crates}

/-! ## The arithmetic of a request -/

/-- The reader answers a request with the parts. -/
def Server.Answers (X : Crates) (s : Server) (key : String) (offset length : Nat)
    (parts : List Bytes) : RangeReader → Prop
  | .readRange =>
    returned (StorageEngine.readRange X key offset length s.world.store) = .ok parts.flatten
  | .stream => returned (StorageEngine.stream X key offset length s.world.store) = .ok (parts.map .ok)
  | .streamMedia => ∃ (chunks : List MediaChunk) (cache : ChunkCache),
      returned (streamMedia X ⟨.ok (), key, offset, length⟩ s.cache s.world.store)
        = .ok (.ok (chunks.map .ok), cache) ∧
      chunks.map MediaChunk.data = parts

theorem Server.Serves.answers {D : Set Bytes} {s : Server} {key : String} {m : MediaManifest}
    {d : Bytes} (h : s.Serves X D key m d) (hinj : Set.InjOn X.sha256 D) {offset length : Nat}
    {parts : List Bytes} (hparts : RangeParts m d offset length parts) (reader : RangeReader) :
    s.Answers X key offset length parts reader := by
  cases reader with
  | readRange => exact h.returned (does_readRange h.manifest h.describes h.readable hparts)
  | stream => exact h.returned (does_stream h.manifest h.describes h.readable hparts)
  | streamMedia =>
    obtain ⟨cache', hmedia⟩ :=
      does_streamMedia hinj h.manifest h.describes h.readable (hparts.sent h.describes) h.cached
    exact ⟨_, cache', h.returned hmedia, frames_data parts 0 offset⟩

/-- What the chunks of the object contain. -/
theorem Server.Serves.contents {D : Set Bytes} {s : Server} {key : String} {m : MediaManifest}
    {d : Bytes} (h : s.Serves X D key m d) :
    m.chunks.map (fun id => Effects.returned (BlobStore.readChunk X id s.world.store))
      = (Slices.slices m.chunkSize d).map Except.ok := by
  rw [h.describes.chunks, List.map_map]
  exact List.map_congr_left fun p hp => h.returned (h.readable p hp)

section
variable (hX : X.Lawful) (engine : StorageEngine) (dataDir : String) (maxSize : Nat)
  (actions : List ServerAction) (hsize : 0 < engine.chunkSize)
  (hsized : ∀ call ∈ actions.filterMap ServerAction.call?, call.Sized)
  (hfree : CollisionFree X engine (actions.filterMap ServerAction.call?))
include hX hsize hsized hfree

/-- **Requests for a range.** Every reader gets through its arithmetic, and answers with the range,
exactly if the sum of offset and length is a `u64`. -/
theorem range_requests_iff (key : String) (m : MediaManifest)
    (hm : ((Server.start engine dataDir maxSize).run X actions).world.store.index.manifests[key]?
      = some m)
    (offset length : Nat) (hoff : offset < 2 ^ 64) :
    let s := (Server.start engine dataDir maxSize).run X actions
    ∃ pieces : List Bytes,
      m.chunks.map (fun id => returned (BlobStore.readChunk X id s.world.store)) = pieces.map .ok ∧
      ∀ reader : RangeReader,
        ((∃ parts, reader.parts true m pieces offset length = .ok parts ∧
          s.Answers X key offset length parts reader ∧
          parts.flatten = range pieces.flatten offset length) ↔ offset + length < 2 ^ 64) := by
  intro s
  obtain ⟨d, -, h⟩ := Server.serves_manifest hX engine dataDir maxSize actions hsize hsized hfree hm
  refine ⟨_, h.contents, fun reader => ⟨?_, fun hsum => ?_⟩⟩
  · rintro ⟨parts, hparts, -⟩
    by_contra hsum
    rw [reader.parts_overflow m _ hoff (by omega)] at hparts
    cases hparts
  · have hcross := h.describes.rangeParts hsum
    rw [Slices.flatten_slices h.describes.size]
    exact ⟨_, reader.parts_ok h.describes true hsum hcross, h.answers hfree hcross reader,
      flatten_rangePieces h.describes.size d offset length⟩

end

/-- An object of two chunks. -/
def oneObject : List ServerAction := [.call (.store "a" [1, 2, 3] "" [])]

theorem oneObject_free :
    CollisionFree .reference ⟨2, 0, false⟩ (oneObject.filterMap ServerAction.call?) :=
  reference_free (by decide +kernel)

theorem oneObject_sized : ∀ call ∈ oneObject.filterMap ServerAction.call?, call.Sized := by
  simp [oneObject, ServerAction.call?, Call.Sized]

theorem oneObject_manifest :
    (((Server.start ⟨2, 0, false⟩ "data" 100).run .reference oneObject).world.store.index.manifests[
      "a"]?).isSome = true := by decide +kernel

theorem range_requests_iff_middle :
    let s := (Server.start ⟨2, 0, false⟩ "data" 100).run .reference oneObject
    ∃ m, s.world.store.index.manifests["a"]? = some m ∧ ∃ pieces : List Bytes,
      m.chunks.map (fun id => returned (BlobStore.readChunk .reference id s.world.store))
        = pieces.map .ok ∧
      ∀ reader : RangeReader,
        ((∃ parts, reader.parts true m pieces 1 2 = .ok parts ∧
          s.Answers .reference "a" 1 2 parts reader ∧
          parts.flatten = range pieces.flatten 1 2) ↔ 1 + 2 < 2 ^ 64) := by
  obtain ⟨m, hm⟩ := Option.isSome_iff_exists.1 oneObject_manifest
  exact ⟨m, hm, range_requests_iff Crates.reference_lawful ⟨2, 0, false⟩ "data" 100 oneObject
    (by decide) oneObject_sized oneObject_free "a" m hm 1 2 (by decide)⟩

/-- A length next to `2 ^ 64` with an offset that is not 0 overflows, here in `stream`. -/
theorem range_request_overflows :
    ¬ ∀ (X : Crates) (engine : StorageEngine) (dataDir : String) (maxSize : Nat)
      (actions : List ServerAction), X.Lawful → 0 < engine.chunkSize →
      (∀ call ∈ actions.filterMap ServerAction.call?, call.Sized) →
      CollisionFree X engine (actions.filterMap ServerAction.call?) →
      ∀ (key : String) (m : MediaManifest),
      ((Server.start engine dataDir maxSize).run X actions).world.store.index.manifests[key]?
        = some m →
      ∀ (offset length : Nat), offset < 2 ^ 64 → length < 2 ^ 64 →
      let s := (Server.start engine dataDir maxSize).run X actions
      ∃ pieces : List Bytes,
        m.chunks.map (fun id => returned (BlobStore.readChunk X id s.world.store)) = pieces.map .ok ∧
        ∀ reader : RangeReader, ∃ parts, reader.parts true m pieces offset length = .ok parts ∧
          s.Answers X key offset length parts reader ∧
          parts.flatten = range pieces.flatten offset length := by
  intro h
  obtain ⟨m, hm⟩ := Option.isSome_iff_exists.1 oneObject_manifest
  obtain ⟨pieces, -, hreaders⟩ := h .reference ⟨2, 0, false⟩ "data" 100 oneObject
    Crates.reference_lawful (by decide) oneObject_sized oneObject_free "a" m hm 1 (2 ^ 64 - 1)
    (by decide) (by decide)
  obtain ⟨parts, hparts, -⟩ := hreaders .stream
  rw [RangeReader.parts_overflow .stream m pieces (by decide) (by decide)] at hparts
  cases hparts

/-! ## The messages of a download -/

/-- The message at `i` carries the part at `i`, from where the parts before it end. -/
theorem frames_get (parts : List Bytes) {sequence : Nat} (hseq : sequence < 2 ^ 32)
    (currentOffset i : Nat) :
    (frames sequence currentOffset parts)[i]? = parts[i]?.map fun part =>
      ⟨(sequence + i) % 2 ^ 32, part, currentOffset + (parts.take i).flatten.length,
        decide (i + 1 = parts.length)⟩ := by
  induction parts generalizing sequence currentOffset i with
  | nil => rfl
  | cons part rest ih =>
    cases i with
    | zero =>
      have hlast : rest.isEmpty = decide (0 + 1 = (part :: rest).length) := by cases rest <;> rfl
      simp only [frames, List.getElem?_cons_zero, Option.map_some, Nat.add_zero, Nat.mod_eq_of_lt hseq,
        hlast, List.take_zero, List.flatten_nil, List.length_nil]
    | succ i =>
      rw [frames, List.getElem?_cons_succ, ih (Nat.mod_lt _ (by decide)), List.getElem?_cons_succ]
      congr 1
      funext q
      rw [Nat.mod_add_mod, Nat.add_assoc sequence, Nat.add_comm 1 i, List.take_succ_cons,
        List.flatten_cons, List.length_append, Nat.add_assoc currentOffset, List.length_cons]
      simp only [Nat.add_right_cancel_iff]

theorem frames_length (parts : List Bytes) (sequence currentOffset : Nat) :
    (frames sequence currentOffset parts).length = parts.length := by
  have hdata := congrArg List.length (frames_data parts sequence currentOffset)
  rwa [List.length_map] at hdata

/-- The messages carry the object from `offset` to `stop`. -/
structure Framed (d : Bytes) (offset stop : Nat) (chunks : List MediaChunk) : Prop where
  sequence : ∀ (i : Nat) chunk, chunks[i]? = some chunk → chunk.sequence = i
  first : ∃ chunk, chunks.head? = some chunk ∧ chunk.offset = offset
  next : ∀ (i : Nat) chunk chunk', chunks[i]? = some chunk → chunks[i + 1]? = some chunk' →
    chunk'.offset = chunk.offset + chunk.data.length
  stop : ∃ chunk, chunks.getLast? = some chunk ∧ chunk.offset + chunk.data.length = stop
  position : ∀ chunk ∈ chunks, chunk.data = (d.drop chunk.offset).take chunk.data.length
  full : ∀ chunk ∈ chunks, chunk.data ≠ []
  isLast : ∀ (i : Nat) chunk, chunks[i]? = some chunk →
    (chunk.isLast = true ↔ i + 1 = chunks.length)

/-- A part of the range is the object from where it lies. -/
theorem part_position {d : Bytes} {offset length i : Nat} {parts : List Bytes} {part : Bytes}
    (hrange : parts.flatten = range d offset length) (hi : parts[i]? = some part) :
    part = (d.drop (offset + (parts.take i).flatten.length)).take part.length := by
  have hsplit : range d offset length
      = (parts.take i).flatten ++ (part ++ (parts.drop (i + 1)).flatten) := by
    rw [← hrange, ← List.flatten_cons, ← List.flatten_append]
    congr 1
    obtain ⟨hlt, hget⟩ := List.getElem?_eq_some_iff.1 hi
    rw [← hget, ← List.drop_eq_getElem_cons hlt, List.take_append_drop]
  have hcut : (d.drop (offset + (parts.take i).flatten.length)).take
      ((if length = 0 then d.length else offset + length) - (offset + (parts.take i).flatten.length))
      = part ++ (parts.drop (i + 1)).flatten := by
    rw [← List.drop_take, ← List.drop_drop]
    show (range d offset length).drop _ = _
    rw [hsplit, List.drop_left]
  have hlen := congrArg List.length hcut
  rw [List.length_take, List.length_append] at hlen
  calc part = (part ++ (parts.drop (i + 1)).flatten).take part.length := List.take_left.symm
    _ = (d.drop (offset + (parts.take i).flatten.length)).take part.length := by
      rw [← hcut, List.take_take, Nat.min_eq_left (by omega)]

/-- Everything but the sequence numbers holds of every range; they run out at `2 ^ 32`. -/
theorem frames_framed_iff {d : Bytes} {offset length stop : Nat} {parts : List Bytes}
    (hrange : parts.flatten = range d offset length) (hne : parts ≠ []) (hfull : [] ∉ parts)
    (hstop : offset + (range d offset length).length = stop) :
    Framed d offset stop (frames 0 offset parts) ↔ parts.length ≤ 2 ^ 32 := by
  have hget := frames_get parts (show 0 < 2 ^ 32 by decide) offset
  have hpart : ∀ {i : Nat} {chunk : MediaChunk}, (frames 0 offset parts)[i]? = some chunk →
      parts[i]? = some chunk.data ∧ chunk.sequence = i % 2 ^ 32 ∧
      chunk.offset = offset + (parts.take i).flatten.length ∧
      chunk.isLast = decide (i + 1 = parts.length) := by
    intro i chunk hchunk
    rw [hget i] at hchunk
    obtain ⟨part, hi, rfl⟩ := Option.map_eq_some_iff.1 hchunk
    exact ⟨hi, by rw [Nat.zero_add], rfl, rfl⟩
  have htake : ∀ {i : Nat} {part : Bytes}, parts[i]? = some part →
      (parts.take (i + 1)).flatten.length = (parts.take i).flatten.length + part.length := by
    intro i part hi
    rw [List.take_add_one, hi, List.flatten_append, List.length_append]
    simp
  refine ⟨fun h => ?_, fun hcount => ?_⟩
  · -- the message after `2 ^ 32` of them has the number 0 again
    by_contra hcount
    have hlt : 2 ^ 32 < (frames 0 offset parts).length := by
      rw [frames_length]
      omega
    have hchunk := List.getElem?_eq_getElem hlt
    have hwrong := (hpart hchunk).2.1
    rw [h.sequence _ _ hchunk] at hwrong
    exact absurd hwrong (by decide)
  · refine ⟨fun i chunk hi => ?_, ?_, fun i chunk chunk' hi hi' => ?_, ?_, fun chunk hmem => ?_,
      fun chunk hmem => ?_, fun i chunk hi => ?_⟩
    · obtain ⟨hlt, -⟩ := List.getElem?_eq_some_iff.1 (hpart hi).1
      rw [(hpart hi).2.1, Nat.mod_eq_of_lt (by omega)]
    · cases parts with
      | nil => exact absurd rfl hne
      | cons part rest => exact ⟨_, rfl, rfl⟩
    · rw [(hpart hi).2.2.1, (hpart hi').2.2.1, htake (hpart hi).1, Nat.add_assoc]
    · have hsent : frames 0 offset parts ≠ [] := fun hnil =>
        hne (by rw [← frames_data parts 0 offset, hnil, List.map_nil])
      have hlast := List.getLast?_eq_some_getLast hsent
      refine ⟨_, hlast, ?_⟩
      rw [List.getLast?_eq_getElem?, frames_length] at hlast
      have hpos := List.length_pos_iff.2 hne
      rw [(hpart hlast).2.2.1, Nat.add_assoc, ← htake (hpart hlast).1, Nat.sub_add_cancel hpos,
        List.take_length, hrange, hstop]
    · obtain ⟨i, hi⟩ := List.getElem?_of_mem hmem
      rw [(hpart hi).2.2.1]
      exact part_position hrange (hpart hi).1
    · obtain ⟨i, hi⟩ := List.getElem?_of_mem hmem
      exact fun hnil => hfull (hnil ▸ List.mem_of_getElem? (hpart hi).1)
    · rw [(hpart hi).2.2.2, frames_length, decide_eq_true_iff]

/-- A range has a message for each chunk that it crosses. -/
theorem RangeParts.count {D : Set Bytes} {m : MediaManifest} {d : Bytes} (hd : Describes X D m d)
    {offset length : Nat} {parts : List Bytes} (h : RangeParts m d offset length parts)
    (hoff : offset < d.length) :
    m.startChunkIdx offset + parts.length
      = m.endChunkIdx (rangeEnd m.totalSize offset length) + 1 := by
  cases h with
  | outside hout => omega
  | inside hoff hk hlt hin hcuts =>
    have hcount := congrArg List.length hd.chunks
    rw [List.length_map] at hcount
    rw [hcuts.length, ← Slices.drop_slices hd.size, List.length_take, List.length_drop]
    omega

/-- The length of a range that begins within the object. -/
theorem add_length_range {d : Bytes} {offset length : Nat} (hoff : offset < d.length)
    (hlen : offset + length < 2 ^ 64) :
    offset + (range d offset length).length = rangeEnd d.length offset length := by
  rw [range, rangeEnd, List.length_drop, List.length_take, Nat.mod_eq_of_lt hlen]
  split_ifs <;> omega

/-- What a download from the server sends, and when it is framed. -/
theorem Server.Serves.framing {D : Set Bytes} {s : Server} {key : String} {m : MediaManifest}
    {d : Bytes} (h : s.Serves X D key m d) (hinj : Set.InjOn X.sha256 D) {offset length : Nat}
    (hoff : offset < d.length) (hlen : offset + length < 2 ^ 64) :
    ∃ (chunks : List MediaChunk) (cache : ChunkCache),
      Effects.returned (streamMedia X ⟨.ok (), key, offset, length⟩ s.cache s.world.store)
        = .ok (.ok (chunks.map .ok), cache) ∧
      (Framed d offset (rangeEnd m.totalSize offset length) chunks ↔
        m.endChunkIdx (rangeEnd m.totalSize offset length) - m.startChunkIdx offset < 2 ^ 32) := by
  have hcross := h.describes.rangeParts hlen
  have hrange := flatten_rangePieces h.describes.size d offset length
  have hfull : [] ∉ rangePieces m.chunkSize d offset length := fun hnil =>
    absurd (length_rangePieces h.describes.size d offset length [] hnil).1 (by decide)
  generalize rangePieces m.chunkSize d offset length = parts at hcross hrange hfull
  obtain ⟨cache', hmedia⟩ :=
    does_streamMedia hinj h.manifest h.describes h.readable (hcross.sent h.describes) h.cached
  have hstop := add_length_range hoff hlen
  have hne : parts ≠ [] := by
    rintro rfl
    have h0 := congrArg List.length hrange
    rw [List.flatten_nil, List.length_nil] at h0
    rw [← h0, rangeEnd, Nat.mod_eq_of_lt hlen] at hstop
    split_ifs at hstop <;> omega
  have hcount := hcross.count h.describes hoff
  rw [← h.describes.total] at hstop
  refine ⟨_, cache', h.returned hmedia, (frames_framed_iff hrange hne hfull hstop).trans ?_⟩
  have hpos := List.length_pos_iff.2 hne
  omega

section
variable (hX : X.Lawful) (engine : StorageEngine) (dataDir : String) (maxSize : Nat)
  (actions : List ServerAction) (hsize : 0 < engine.chunkSize)
  (hsized : ∀ call ∈ actions.filterMap ServerAction.call?, call.Sized)
  (hfree : CollisionFree X engine (actions.filterMap ServerAction.call?))
include hX hsize hsized hfree

/-- **The messages of a download are framed** exactly if the range crosses at most `2 ^ 32` chunks. -/
theorem download_framing_iff (key : String) (d : Bytes)
    (hobject : ((Spec.fresh engine).run (actions.filterMap ServerAction.call?)).1.objects[key]?
      = some d)
    (offset length : Nat) (hoff : offset < d.length) (hlen : offset + length < 2 ^ 64) :
    let s := (Server.start engine dataDir maxSize).run X actions
    ∃ m, s.world.store.index.manifests[key]? = some m ∧
      ∃ (chunks : List MediaChunk) (cache : ChunkCache),
        returned (streamMedia X ⟨.ok (), key, offset, length⟩ s.cache s.world.store)
          = .ok (.ok (chunks.map .ok), cache) ∧
        (Framed d offset (rangeEnd m.totalSize offset length) chunks ↔
          m.endChunkIdx (rangeEnd m.totalSize offset length) - m.startChunkIdx offset < 2 ^ 32) := by
  intro s
  obtain ⟨m, h⟩ := Server.serves_object hX engine dataDir maxSize actions hsize hsized hfree hobject
  exact ⟨m, h.manifest, h.framing hfree hoff hlen⟩

end

theorem download_framing_iff_middle :
    let s := (Server.start ⟨2, 0, false⟩ "data" 100).run .reference oneObject
    ∃ m, s.world.store.index.manifests["a"]? = some m ∧
      ∃ (chunks : List MediaChunk) (cache : ChunkCache),
        returned (streamMedia .reference ⟨.ok (), "a", 1, 2⟩ s.cache s.world.store)
          = .ok (.ok (chunks.map .ok), cache) ∧
        (Framed [1, 2, 3] 1 (rangeEnd m.totalSize 1 2) chunks ↔
          m.endChunkIdx (rangeEnd m.totalSize 1 2) - m.startChunkIdx 1 < 2 ^ 32) :=
  download_framing_iff Crates.reference_lawful ⟨2, 0, false⟩ "data" 100 oneObject (by decide)
    oneObject_sized oneObject_free "a" [1, 2, 3] (by decide +kernel) 1 2 (by decide) (by decide)

/-- Where a text has a piece for the first time. -/
def placeIn (text d : Bytes) : Nat := text.tails.findIdx d.isPrefixOf

theorem take_placeIn {text d : Bytes} (h : d <:+: text) :
    (text.drop (placeIn text d)).take d.length = d ∧ placeIn text d ≤ text.length := by
  obtain ⟨t, hpre, hsuf⟩ := List.infix_iff_prefix_suffix.1 h
  have hlt : placeIn text d < text.tails.length :=
    List.findIdx_lt_length_of_exists ⟨t, (List.mem_tails t text).2 hsuf, List.isPrefixOf_iff_prefix.2 hpre⟩
  have hfound : d.isPrefixOf (text.drop (placeIn text d)) = true := by
    rw [← List.getElem_tails text _ hlt]
    exact List.findIdx_getElem
  rw [List.length_tails] at hlt
  exact ⟨(List.prefix_iff_eq_take.1 (List.isPrefixOf_iff_prefix.1 hfound)).symm, Nat.le_of_lt_succ hlt⟩

/-- A digest that tells the pieces of one text apart: their length and place. -/
def placeDigest (text d : Bytes) : Vector UInt8 32 :=
  ⟨(leBytes 16 d.length ++ leBytes 16 (placeIn text d)).toArray, by simp [leBytes_length]⟩

/-- **Collisions can be avoided** on every object shorter than `2 ^ 128` bytes. -/
theorem placeDigest_injOn {text : Bytes} (h : text.length < 256 ^ 16) :
    Set.InjOn (placeDigest text) (pieces [text]) := by
  rintro d ⟨b, hb, hd⟩ e ⟨c, hc, he⟩ heq
  rw [List.mem_singleton.1 hb] at hd
  rw [List.mem_singleton.1 hc] at he
  obtain ⟨hd', hdplace⟩ := take_placeIn hd
  obtain ⟨he', heplace⟩ := take_placeIn he
  have hlists := congrArg (fun v : Vector UInt8 32 => v.toArray.toList) heq
  obtain ⟨hlen, hplace⟩ := List.append_inj hlists (by rw [leBytes_length, leBytes_length])
  have hnum := congrArg fromLeBytes hlen
  rw [fromLeBytes_leBytes 16 _ (hd.length_le.trans_lt h),
    fromLeBytes_leBytes 16 _ (he.length_le.trans_lt h)] at hnum
  have hat := congrArg fromLeBytes hplace
  rw [fromLeBytes_leBytes 16 _ (hdplace.trans_lt h), fromLeBytes_leBytes 16 _ (heplace.trans_lt h)] at hat
  rw [← hd', ← he', hnum, hat]

/-- Nothing is asked of the digest. -/
theorem Crates.Lawful.withSha256 (hX : X.Lawful) (f : Bytes → Vector UInt8 32) :
    Crates.Lawful { X with sha256 := f } :=
  ⟨hX.one_line, hX.round_trip, hX.rejects_start⟩

/-- Crates under which the pieces of the text do not collide. -/
def Crates.placing (text : Bytes) : Crates := { Crates.reference with sha256 := placeDigest text }

theorem Crates.placing_lawful (text : Bytes) : (Crates.placing text).Lawful :=
  Crates.reference_lawful.withSha256 _

/-- One object, under an engine with chunks of eight bytes. -/
def storesBytes (d : Bytes) : List ServerAction := [.call (.store "a" d "" [])]

theorem storesBytes_free {d : Bytes} (h : d.length < 256 ^ 16) :
    CollisionFree (.placing d) ⟨8, 0, false⟩ ((storesBytes d).filterMap ServerAction.call?) :=
  placeDigest_injOn h

/-- The numbers below `n`, each in a chunk of its own. -/
def numbered (n : Nat) : Bytes := (List.range n).flatMap (leBytes 8)

theorem length_numbered (n : Nat) : (numbered n).length = n * 8 := by
  rw [numbered, List.length_flatMap, List.map_congr_left (g := fun _ => 8) fun i _ =>
    leBytes_length 8 i, List.map_const', List.sum_replicate_nat, List.length_range]

theorem storesBytes_object (d : Bytes) :
    ((Spec.fresh ⟨8, 0, false⟩).run ((storesBytes d).filterMap ServerAction.call?)).1.objects["a"]?
      = some d := by
  have hstep : (Spec.fresh ⟨8, 0, false⟩).step (.store "a" d "" [])
      = ({ Spec.fresh ⟨8, 0, false⟩ with objects := (∅ : Std.ExtTreeMap String Bytes).insert "a" d },
        .stored "a") := rfl
  show ((Spec.fresh ⟨8, 0, false⟩).step (.store "a" d "" [])).1.objects["a"]? = some d
  rw [hstep]
  exact (FinMap.get_insert _ _ _ _).trans (if_pos rfl)

theorem storesBytes_chunkSize {d : Bytes} {m : MediaManifest}
    (hm : ((Server.start ⟨8, 0, false⟩ "data" 100).run X
      (storesBytes d)).world.store.index.manifests["a"]? = some m) : m.chunkSize = 8 := by
  have h0 : Sim X Set.univ (World.fresh ⟨8, 0, false⟩ "data" (Stream'.const .ok))
      (Spec.fresh ⟨8, 0, false⟩) := Sim.fresh (by decide) "data"
  obtain ⟨t, now, c', hstore, hset, -, -, -, hman⟩ := h0.does_store "a" d "" [] rfl
    (fun h => h.1 rfl) fun _ _ => Set.mem_univ _
  obtain ⟨st, hrun, -, hview⟩ := onEngine_of_does h0.healthy hstore Reply.manifest
  have hworld : ((Server.start ⟨8, 0, false⟩ "data" 100).run X (storesBytes d)).world
      = { World.fresh ⟨8, 0, false⟩ "data" (Stream'.const .ok) with store := st } :=
    congrArg Prod.fst hrun
  have hmanifests : st.index.manifests = _ := (congrArg (fun c => c.index.manifests) hview).trans hman
  rw [hworld, hmanifests, FinMap.get_insert, if_pos rfl] at hm
  cases hm
  exact congrArg Prod.fst hset

/-- A download of more than `2 ^ 32` chunks uses sequence numbers twice. -/
theorem download_repeats_sequence :
    ¬ ∀ (X : Crates) (engine : StorageEngine) (dataDir : String) (maxSize : Nat)
      (actions : List ServerAction), X.Lawful → 0 < engine.chunkSize →
      (∀ call ∈ actions.filterMap ServerAction.call?, call.Sized) →
      CollisionFree X engine (actions.filterMap ServerAction.call?) →
      ∀ (key : String) (d : Bytes),
      ((Spec.fresh engine).run (actions.filterMap ServerAction.call?)).1.objects[key]? = some d →
      ∀ (offset length : Nat), offset < d.length → offset + length < 2 ^ 64 →
      let s := (Server.start engine dataDir maxSize).run X actions
      ∃ m, s.world.store.index.manifests[key]? = some m ∧
        ∃ (chunks : List MediaChunk) (cache : ChunkCache),
          returned (streamMedia X ⟨.ok (), key, offset, length⟩ s.cache s.world.store)
            = .ok (.ok (chunks.map .ok), cache) ∧
          Framed d offset (rangeEnd m.totalSize offset length) chunks := by
  intro h
  obtain ⟨n, hn⟩ : ∃ n, n = 2 ^ 32 + 1 := ⟨_, rfl⟩
  let d := numbered n
  have hlength : d.length = n * 8 := length_numbered n
  have hfree := storesBytes_free (d := d) (by omega)
  have hsized : ∀ call ∈ (storesBytes d).filterMap ServerAction.call?, call.Sized := by
    intro call hcall
    rw [List.mem_singleton.1 hcall]
    trivial
  have hobject := storesBytes_object d
  obtain ⟨m, hm, chunks, cache, hrun, hframed⟩ := h (.placing d) ⟨8, 0, false⟩ "data" 100
    (storesBytes d) (Crates.placing_lawful d) (by decide) hsized hfree "a" _ hobject 0 0
    (by omega) (by decide)
  obtain ⟨m', hserves⟩ := Server.serves_object (Crates.placing_lawful d) ⟨8, 0, false⟩ "data" 100 _
    (by decide) hsized hfree hobject
  cases hm.symm.trans hserves.manifest
  obtain ⟨chunks', cache', hrun', hiff⟩ := hserves.framing hfree (show 0 < _ by omega)
    (show 0 + 0 < 2 ^ 64 by decide)
  have hsame := hrun.symm.trans hrun'
  simp only [Except.ok.injEq, Prod.mk.injEq] at hsame
  obtain rfl : chunks = chunks' := List.map_injective_iff.2 (fun _ _ => Except.ok.inj) hsame.1
  have height := storesBytes_chunkSize hm
  have hcount := hiff.1 hframed
  rw [hserves.describes.total, hlength, MediaManifest.endChunkIdx, MediaManifest.startChunkIdx, height,
    rangeEnd, if_pos rfl, wrappingSub_le (by omega)] at hcount
  omega

end KaidaDB
