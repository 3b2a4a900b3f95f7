import KaidaDB.Crates.Reference
import KaidaDB.Crates.Crc32
import KaidaDB.Storage.ChunkFormat
import KaidaDB.Storage.Proof.RangeChecks

/-!
# What `decode_chunk` accepts

As long as the length of the file it asks for is a `u64`, `decode_chunk` tells the well-formed files
from the others (`decodeChunkWith_cases`); what it says about an encoded payload, a part of it or a
damaged one follows from what these files look like.
-/

namespace KaidaDB

variable {X : Crates} {raw p d : Bytes} {checks : Bool}

/-! ## Any file -/

theorem getElem?_of_getD {raw : Bytes} {b : UInt8} (h : 4 < raw.length) (hb : raw.getD 4 0 = b) :
    raw[4]? = some b := by
  rw [List.getElem?_eq_getElem h, ← hb, List.getD_eq_getElem _ _ h]

/-- Without a header there is an error, which is not a panic. -/
theorem decodeChunkWith_noHeader (h : ¬ HasHeader raw) :
    ∃ e, decodeChunkWith X checks raw = .error (.error e) := by
  unfold decodeChunkWith
  split_ifs with hlong hmagic hversion
  · exact ⟨_, rfl⟩
  · exact ⟨_, rfl⟩
  · exact ⟨_, rfl⟩
  · simp only [chunkHeaderSize, not_lt, ne_eq, not_not] at hlong hmagic hversion
    exact absurd ⟨hlong, hmagic, getElem?_of_getD (by omega) hversion⟩ h

theorem decodeChunkWith_header (h : HasHeader raw) :
    decodeChunkWith X checks raw = decodePayload X checks raw := by
  have hversion : raw.getD 4 0 = chunkFormatVersion := by
    rw [List.getD_eq_getElem?_getD, h.version, Option.getD_some]
  rw [decodeChunkWith, if_neg (not_lt.2 h.long), if_neg (not_not.2 h.magic),
    if_neg (not_not.2 hversion)]

/-- Where the length of the file is a `u64`, it is compared as a number. -/
theorem decodePayload_fits (h : chunkHeaderSize + payloadLen raw < 2 ^ 64)
    (hfits : chunkHeaderSize + payloadLen raw ≤ raw.length) :
    decodePayload X checks raw
      = let payload := (raw.drop chunkHeaderSize).take (payloadLen raw)
        if storedCrc raw = (X.crc32 payload).toNat then .ok payload
        else .error (.error (.chunkIntegrity "unknown" s!"CRC mismatch: stored={
          hexNat (storedCrc raw)}, computed={hexNat (X.crc32 payload).toNat}")) := by
  have hslice : sliceOf raw chunkHeaderSize (chunkHeaderSize + payloadLen raw)
      = .ok ((raw.drop chunkHeaderSize).take (payloadLen raw)) := by
    rw [sliceOf, if_neg (by omega), if_neg (by omega), List.drop_take, Nat.add_sub_cancel_left]
  rw [decodePayload, addU64_ok checks h]
  simp only [bind, Except.bind, if_neg (not_lt.2 hfits), hslice]
  rfl

theorem decodePayload_short (h : chunkHeaderSize + payloadLen raw < 2 ^ 64)
    (hshort : raw.length < chunkHeaderSize + payloadLen raw) :
    ∃ e, decodePayload X checks raw = .error (.error e) := by
  rw [decodePayload, addU64_ok checks h]
  simp only [bind, Except.bind, if_pos hshort]
  exact ⟨_, rfl⟩

/-- A file whose length is a `u64` is decoded if it is well formed, and an error otherwise. -/
theorem decodeChunkWith_cases (X : Crates) (checks : Bool) (h : ¬ LengthOverflows raw) :
    (∃ p, Frames X raw p ∧ decodeChunkWith X checks raw = .ok p) ∨
      (∀ p, ¬ Frames X raw p) ∧ ∃ e, decodeChunkWith X checks raw = .error (.error e) := by
  by_cases hhead : HasHeader raw
  case neg => exact .inr ⟨fun p hp => hhead hp.header, decodeChunkWith_noHeader hhead⟩
  have hsum : chunkHeaderSize + payloadLen raw < 2 ^ 64 := not_le.1 fun hbig => h ⟨hhead, hbig⟩
  rw [decodeChunkWith_header hhead]
  by_cases hfits : chunkHeaderSize + payloadLen raw ≤ raw.length
  case neg => exact .inr ⟨fun p hp => hfits hp.fits, decodePayload_short hsum (not_le.1 hfits)⟩
  rw [decodePayload_fits hsum hfits]
  by_cases hcrc : storedCrc raw = (X.crc32 ((raw.drop chunkHeaderSize).take (payloadLen raw))).toNat
  · exact .inl ⟨_, ⟨hhead, hfits, rfl, hcrc⟩, if_pos hcrc⟩
  · refine .inr ⟨fun p hp => hcrc ?_, _, if_neg hcrc⟩
    rw [← hp.payload]
    exact hp.crc

theorem fromLeBytes_lt (bs : Bytes) : fromLeBytes bs < 256 ^ bs.length := by
  induction bs with
  | nil => decide
  | cons b bs ih =>
    have := b.toNat_lt
    rw [fromLeBytes, List.length_cons, pow_succ]
    omega

theorem payloadLen_lt (raw : Bytes) : payloadLen raw < 2 ^ 64 := by
  have h := fromLeBytes_lt ((raw.drop 10).take 8)
  have hlen : ((raw.drop 10).take 8).length ≤ 8 := List.length_take_le _ _
  exact Nat.lt_of_lt_of_le h (Nat.pow_le_pow_right (by decide) hlen)

/-- With an overflow there is a panic: from the sum, or from the slice it wraps to. -/
theorem decodeChunkWith_overflow (X : Crates) (checks : Bool) (h : LengthOverflows raw) :
    ∃ msg, decodeChunkWith X checks raw = .error (.panic msg) := by
  obtain ⟨hhead, hbig⟩ := h
  have hlong := hhead.long
  have hlt := payloadLen_lt raw
  rw [decodeChunkWith_header hhead, decodePayload, addU64, if_neg (not_lt.2 hbig)]
  cases checks with
  | true => exact ⟨_, rfl⟩
  | false =>
    have hwraps : (chunkHeaderSize + payloadLen raw) % 2 ^ 64 < chunkHeaderSize := by
      simp only [chunkHeaderSize] at *
      omega
    simp only [Bool.false_eq_true, if_false, bind, Except.bind,
      if_neg (not_lt.2 (hwraps.le.trans hlong)), sliceOf, if_pos hwraps]
    exact ⟨_, rfl⟩

/-- `decode_chunk` is right about a file, without a panic, unless the length overflows. -/
theorem decodesSafely_iff (X : Crates) (checks : Bool) (raw : Bytes) :
    DecodesSafely X checks raw ↔ ¬ LengthOverflows raw := by
  refine ⟨fun h hover => ?_, fun h => ?_⟩
  · obtain ⟨msg, hpanic⟩ := decodeChunkWith_overflow X checks hover
    obtain ⟨e, he⟩ := h.error _ hpanic
    cases he
  · rcases decodeChunkWith_cases X checks h with
      ⟨p, hp, hok⟩ | ⟨hnone, e, herr⟩
    · refine ⟨fun q => ⟨fun hq => ?_, fun hq => ?_⟩, fun f hf => ?_⟩
      · rw [hok] at hq
        exact Except.ok.inj hq ▸ hp
      · rw [hok, hp.payload, hq.payload]
      · rw [hok] at hf
        cases hf
    · refine ⟨fun q => ⟨fun hq => ?_, fun hq => absurd hq (hnone q)⟩, fun f hf => ?_⟩
      · rw [herr] at hq
        cases hq
      · rw [herr] at hf
        exact ⟨e, (Except.error.inj hf).symm⟩

/-- A header that announces `2 ^ 64 - 1` bytes of payload. -/
def endlessChunk : Bytes :=
  chunkMagic ++ chunkFormatVersion :: 0 :: List.replicate 4 0 ++ List.replicate 8 0xFF

theorem endlessChunk_panics : ¬ (∀ raw, DecodesSafely Crates.reference true raw) ∧
    ¬ (∀ raw, DecodesSafely Crates.reference false raw) := by
  have hover : LengthOverflows endlessChunk := ⟨⟨by decide, by decide, by decide⟩, by decide⟩
  refine ⟨fun h => ?_, fun h => ?_⟩
  · obtain ⟨msg, hpanic⟩ := decodeChunkWith_overflow Crates.reference true hover
    obtain ⟨e, he⟩ := (h endlessChunk).error _ hpanic
    cases he
  · obtain ⟨msg, hpanic⟩ := decodeChunkWith_overflow Crates.reference false hover
    obtain ⟨e, he⟩ := (h endlessChunk).error _ hpanic
    cases he

/-- `decodeChunk` is the decoder of a build with overflow checks. -/
theorem decodeChunkWith_true (X : Crates) (raw : Bytes) :
    decodeChunkWith X true raw = decodeChunk X raw := by
  unfold decodeChunkWith decodeChunk
  by_cases hlong : raw.length < chunkHeaderSize
  · rw [if_pos hlong, if_pos hlong]
  by_cases hmagic : raw.take 4 ≠ chunkMagic
  · rw [if_neg hlong, if_neg hlong, if_pos hmagic, if_pos hmagic]
  by_cases hversion : raw.getD 4 0 ≠ chunkFormatVersion
  · rw [if_neg hlong, if_neg hlong, if_neg hmagic, if_neg hmagic, if_pos hversion, if_pos hversion]
  rw [if_neg hlong, if_neg hlong, if_neg hmagic, if_neg hmagic, if_neg hversion, if_neg hversion]
  show decodePayload X true raw = if 2 ^ 64 ≤ chunkHeaderSize + payloadLen raw then _
    else if raw.length < chunkHeaderSize + payloadLen raw then _ else _
  by_cases hsum : chunkHeaderSize + payloadLen raw < 2 ^ 64
  case neg =>
    rw [if_pos (not_lt.1 hsum), decodePayload, addU64, if_neg hsum]
    rfl
  rw [if_neg (not_le.2 hsum)]
  by_cases hfits : chunkHeaderSize + payloadLen raw ≤ raw.length
  · rw [if_neg (not_lt.2 hfits), decodePayload_fits hsum hfits]
    exact (ite_not _ _ _).symm
  · rw [if_pos (not_le.1 hfits), decodePayload, addU64_ok true hsum]
    simp only [bind, Except.bind, if_pos (not_le.1 hfits)]
    rfl

/-! ## An encoded payload -/

section
variable (X d)

/-- The header in front of a payload. -/
def chunkHeader (d : Bytes) : Bytes :=
  chunkMagic ++ chunkFormatVersion :: 0 :: leBytes 4 (X.crc32 d).toNat ++ leBytes 8 d.length

theorem encodeChunk_eq : encodeChunk X d = chunkHeader X d ++ d := rfl

theorem chunkHeader_length : (chunkHeader X d).length = chunkHeaderSize := by
  simp [chunkHeader, chunkMagic, leBytes_length, chunkHeaderSize]

theorem encodeChunk_length : (encodeChunk X d).length = chunkHeaderSize + d.length := by
  rw [encodeChunk_eq, List.length_append, chunkHeader_length]

theorem encodeChunk_drop : (encodeChunk X d).drop chunkHeaderSize = d := by
  rw [encodeChunk_eq, List.drop_append_of_le_length (chunkHeader_length X d).ge,
    List.drop_of_length_le (chunkHeader_length X d).le, List.nil_append]

theorem storedCrc_encodeChunk : storedCrc (encodeChunk X d) = (X.crc32 d).toNat := by
  have hfield : ((encodeChunk X d).drop 6).take 4 = leBytes 4 (X.crc32 d).toNat := by
    simp [encodeChunk, chunkMagic, leBytes_length]
  rw [storedCrc, hfield, fromLeBytes_leBytes 4 _ (X.crc32 d).toNat_lt]

end

theorem payloadLen_encodeChunk (X : Crates) (h : d.length < 2 ^ 64) :
    payloadLen (encodeChunk X d) = d.length := by
  have hfield : ((encodeChunk X d).drop 10).take 8 = leBytes 8 d.length := by
    simp [encodeChunk, chunkMagic, leBytes_length]
  rw [payloadLen, hfield, fromLeBytes_leBytes 8 _ h]

theorem frames_encodeChunk (X : Crates) (h : d.length < 2 ^ 64) :
    Frames X (encodeChunk X d) d where
  header := by
    refine ⟨?_, rfl, rfl⟩
    rw [encodeChunk_length]
    exact Nat.le_add_right _ _
  fits := by rw [payloadLen_encodeChunk X h, encodeChunk_length]
  payload := by rw [payloadLen_encodeChunk X h, encodeChunk_drop, List.take_length]
  crc := storedCrc_encodeChunk X d

/-! ## Parts and damage -/

/-- A field of a file does not depend on a byte outside it. -/
theorem field_set {start n i : Nat} (raw : Bytes) (b : UInt8) (h : i < start ∨ start + n ≤ i) :
    ((raw.set i b).drop start).take n = (raw.drop start).take n := by
  rw [List.drop_set]
  split
  next => rfl
  next hge => exact List.take_set_of_le (by omega)

theorem fromLeBytes_injective : ∀ {a b : Bytes}, a.length = b.length →
    fromLeBytes a = fromLeBytes b → a = b
  | [], [], _, _ => rfl
  | x :: a, y :: b, hlen, h => by
    have hx := x.toNat_lt
    have hy := y.toNat_lt
    simp only [fromLeBytes] at h
    have hhead : x = y := UInt8.toNat_inj.1 (by omega)
    have htail : a = b := fromLeBytes_injective (by simpa using hlen) (by omega)
    rw [hhead, htail]

/-- A byte of the checksum field replaced by another one. -/
theorem storedCrc_set_ne {i : Nat} {b : UInt8} (hi : i < raw.length) (hb : b ≠ raw[i])
    (hcrc : 6 ≤ i ∧ i < 10) : storedCrc (raw.set i b) ≠ storedCrc raw := by
  intro h
  have hfield := fromLeBytes_injective (by simp) h
  have hget := congrArg (·[i - 6]?) hfield
  simp only [List.getElem?_take, List.getElem?_drop, if_pos (show i - 6 < 4 by omega),
    show 6 + (i - 6) = i by omega, List.getElem?_set_self hi, List.getElem?_eq_getElem hi] at hget
  exact hb (Option.some.inj hget)

/-- What is no chunk file is rejected. -/
theorem rejects_of {X : Crates} (h : ¬ LengthOverflows raw) (hnone : ∀ p, ¬ Frames X raw p) :
    Rejects X checks raw := by
  rcases decodeChunkWith_cases X checks h with ⟨p, hp, -⟩ | ⟨-, herr⟩
  · exact absurd hp (hnone p)
  · exact herr

/-- A file that carries the length of `d` at its place does not overflow. -/
theorem not_overflows (hd : d.length < 2 ^ 63) (h : HasHeader raw → payloadLen raw = d.length) :
    ¬ LengthOverflows raw := by
  rintro ⟨hhead, hbig⟩
  rw [h hhead] at hbig
  simp only [chunkHeaderSize] at hbig
  omega

theorem payloadLen_take {n : Nat} (h : chunkHeaderSize ≤ n) :
    payloadLen (raw.take n) = payloadLen raw := by
  simp only [chunkHeaderSize] at h
  rw [payloadLen, payloadLen, List.drop_take, List.take_take, Nat.min_eq_left (by omega)]

theorem rejects_part (X : Crates) (hd : d.length < 2 ^ 63) (hpart : raw <+: encodeChunk X d)
    (hne : raw ≠ encodeChunk X d) : Rejects X checks raw := by
  have hraw : (encodeChunk X d).take raw.length = raw := (List.prefix_iff_eq_take.1 hpart).symm
  have hlen : HasHeader raw → payloadLen raw = d.length := fun h => by
    rw [← payloadLen_encodeChunk X (by omega), ← hraw, payloadLen_take h.long]
  refine rejects_of (not_overflows hd hlen) fun p hp => hne ?_
  -- a file with the length field of the whole is the whole
  have hfits := hp.fits
  rw [hlen hp.header] at hfits
  exact hpart.eq_of_length_le (by rw [encodeChunk_length]; exact hfits)

theorem rejects_damaged (hX : X.crc32 = Digest.crc32) (hd : d.length < 2 ^ 63) {i : Nat} {b : UInt8}
    (hi : i < (encodeChunk X d).length) (hb : b ≠ (encodeChunk X d)[i]) (hg : Guarded i) :
    Rejects X checks ((encodeChunk X d).set i b) := by
  have hwhole := frames_encodeChunk X (d := d) (by omega)
  have hlen : payloadLen ((encodeChunk X d).set i b) = d.length := by
    rw [payloadLen, field_set _ _ (by simp only [Guarded, chunkHeaderSize] at hg; omega)]
    exact payloadLen_encodeChunk X (by omega)
  refine rejects_of (not_overflows hd fun _ => hlen) fun p hp => ?_
  have hpayload := hp.payload
  have hcrc := hp.crc
  rw [hlen] at hpayload
  rcases hg with hstart | hfield | hdata
  · -- a byte of the magic or the version
    rcases Nat.lt_or_ge i 4 with hmagic | hversion
    · have hsame := hp.header.magic.trans hwhole.header.magic.symm
      have hget := congrArg (·[i]?) hsame
      simp only [List.getElem?_take, if_pos hmagic, List.getElem?_set_self hi,
        List.getElem?_eq_getElem hi] at hget
      exact hb (Option.some.inj hget)
    · obtain rfl : i = 4 := by omega
      have hsame := hp.header.version.trans hwhole.header.version.symm
      rw [List.getElem?_set_self hi, List.getElem?_eq_getElem hi] at hsame
      exact hb (Option.some.inj hsame)
  · -- a byte of the checksum: the payload is still `d`
    rw [List.drop_set_of_lt (by simp only [chunkHeaderSize]; omega), encodeChunk_drop,
      List.take_length] at hpayload
    rw [hpayload, ← storedCrc_encodeChunk X d] at hcrc
    exact storedCrc_set_ne hi hb hfield hcrc
  · -- a byte of the payload: the checksum is still that of `d`
    have hdata' : i - chunkHeaderSize < d.length := by rw [encodeChunk_length] at hi; omega
    have hb' : b ≠ d[i - chunkHeaderSize] := by
      have hget : (encodeChunk X d)[i] = d[i - chunkHeaderSize] := by
        simp only [encodeChunk_eq]
        rw [List.getElem_append_right (by rw [chunkHeader_length]; exact hdata)]
        simp only [chunkHeader_length]
      rwa [hget] at hb
    rw [List.drop_set, if_neg (not_lt.2 hdata), encodeChunk_drop,
      List.take_of_length_le (by simp)] at hpayload
    rw [storedCrc, field_set _ _ (.inr (by simp only [chunkHeaderSize] at hdata; omega))] at hcrc
    rw [show fromLeBytes _ = _ from storedCrc_encodeChunk X d, hpayload, hX] at hcrc
    exact Digest.crc32_set_ne hdata' hb' (UInt32.toNat_inj.1 hcrc).symm

/-- The format round-trips, and rejects every part of a file and every byte damaged outside the
flags and the length. -/
theorem chunkFormat_detects {X : Crates} (hX : X.crc32 = Digest.crc32) (checks : Bool) (d : Bytes)
    (hd : d.length < 2 ^ 63) : decodeChunkWith X checks (encodeChunk X d) = .ok d ∧
      (∀ raw, raw <+: encodeChunk X d → raw ≠ encodeChunk X d → Rejects X checks raw) ∧
      ∀ i b, ∀ hi : i < (encodeChunk X d).length, Guarded i → b ≠ (encodeChunk X d)[i] →
        Rejects X checks ((encodeChunk X d).set i b) := by
  refine ⟨?_, fun raw hpart hne => rejects_part X hd hpart hne,
    fun i b hi hg hb => rejects_damaged hX hd hi hb hg⟩
  have hwhole := frames_encodeChunk X (d := d) (by omega)
  rcases decodeChunkWith_cases X checks
      (not_overflows hd fun _ => payloadLen_encodeChunk X (by omega)) with ⟨p, hp, hok⟩ | ⟨hnone, -⟩
  · rw [hok, hp.payload, ← hwhole.payload]
  · exact absurd hwhole (hnone d)

theorem chunkFormat_detects_hello :
    decodeChunkWith Crates.reference true (encodeChunk Crates.reference [0x68, 0x69])
      = .ok [0x68, 0x69] ∧ Rejects Crates.reference true
        ((encodeChunk Crates.reference [0x68, 0x69]).set 18 0x67) := by
  have h := chunkFormat_detects (X := Crates.reference) rfl true [0x68, 0x69] (by decide)
  exact ⟨h.1, h.2.2 18 0x67 (by decide) (.inr (.inr (by decide))) (by decide)⟩

end KaidaDB
