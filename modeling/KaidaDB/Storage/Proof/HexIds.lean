import KaidaDB.Storage.Proof.GcAges

/-!
# Ids of chunks read from hex

`hex::decode` reads the digits of bytes (`hexDecode_eq_some`), and `from_hex` copies what it has read
into 32 bytes. So it reads the digits of an id as that id (`fromHex_eq_ok`), but panics on digits of
more or fewer bytes (`fromHex_eq_panic`), where it should return an error, and so does a pass of `gc`
over an index that has such a string (`gc_panics_iff`).
-/

namespace KaidaDB

/-! ## Digits -/

/-- The values of the digits of bytes, the high one first. -/
def hexDigits (bs : Bytes) : List Nat := bs.flatMap fun b => [b.toNat / 16, b.toNat % 16]

theorem hexDigits_cons (b : UInt8) (bs : Bytes) :
    hexDigits (b :: bs) = b.toNat / 16 :: b.toNat % 16 :: hexDigits bs := rfl

theorem length_hexDigits (bs : Bytes) : (hexDigits bs).length = 2 * bs.length := by
  induction bs with
  | nil => rfl
  | cons b bs ih =>
    rw [hexDigits_cons, List.length_cons, List.length_cons, List.length_cons, ih]
    omega

theorem hexValue_lt {c : Char} {n : Nat} (h : hexValue c = some n) : n < 16 := by
  have hchar : ∀ a b : Char, a ≤ b ↔ a.toNat ≤ b.toNat := fun _ _ => Iff.rfl
  unfold hexValue at h
  simp only [hchar] at h
  have h0 : '0'.toNat = 48 := rfl
  have h9 : '9'.toNat = 57 := rfl
  have ha : 'a'.toNat = 97 := rfl
  have hf : 'f'.toNat = 102 := rfl
  have hA : 'A'.toNat = 65 := rfl
  have hF : 'F'.toNat = 70 := rfl
  split_ifs at h <;> cases h <;> omega

theorem byte_halves (b : UInt8) {x y : Nat} (hx : x < 16) (hy : y < 16) :
    UInt8.ofNat (16 * x + y) = b ↔ x = b.toNat / 16 ∧ y = b.toNat % 16 := by
  have hb : b.toNat < 256 := b.toNat_lt
  rw [← UInt8.toNat_inj, UInt8.toNat_ofNat']
  omega

/-- What is decoded are the bytes with those digits. -/
theorem hexDecode_eq_some (l : List Char) : ∀ bs : Bytes,
    hexDecode l = some bs ↔ l.map hexValue = (hexDigits bs).map some := by
  fun_induction hexDecode l with
  | case1 =>
    intro bs
    cases bs with
    | nil => exact iff_of_true rfl rfl
    | cons b bs => exact iff_of_false nofun nofun
  | case2 c =>
    intro bs
    cases bs with
    | nil => exact iff_of_false nofun nofun
    | cons b bs => exact iff_of_false nofun (by simp [hexDigits_cons])
  | case3 h l rest x y read hread hy hx ih =>
    intro bs
    cases bs with
    | nil => exact iff_of_false nofun nofun
    | cons b bs =>
      rw [hexDigits_cons]
      simp only [List.map_cons, List.cons.injEq, Option.some.injEq, hx, hy]
      rw [byte_halves b (hexValue_lt hx) (hexValue_lt hy), and_assoc, ← ih, hread, Option.some.injEq]
  | case4 h l rest hnone ih =>
    intro bs
    refine iff_of_false nofun fun heq => ?_
    cases bs with
    | nil => cases heq
    | cons b bs =>
      rw [hexDigits_cons, List.map_cons, List.map_cons, List.map_cons, List.map_cons] at heq
      obtain ⟨hh, heq⟩ := List.cons.inj heq
      obtain ⟨hl, heq⟩ := List.cons.inj heq
      exact hnone _ _ _ hh hl ((ih bs).2 heq)

theorem length_hexDecode {l : List Char} {bs : Bytes} (h : hexDecode l = some bs) :
    l.length = 2 * bs.length := by
  have hlength := congrArg List.length ((hexDecode_eq_some l bs).1 h)
  rwa [List.length_map, List.length_map, length_hexDigits] at hlength

theorem hexDecode_isSome (l : List Char) :
    (hexDecode l).isSome ↔ l.length % 2 = 0 ∧ ∀ c ∈ l, (hexValue c).isSome := by
  fun_induction hexDecode l with
  | case1 => exact iff_of_true rfl ⟨rfl, nofun⟩
  | case2 c => exact iff_of_false nofun fun h => absurd h.1 Nat.one_ne_zero
  | case3 h l rest x y read hread hy hx ih =>
    rw [hread] at ih
    obtain ⟨heven, hdigits⟩ := ih.1 rfl
    refine iff_of_true rfl ⟨?_, List.forall_mem_cons.2 ⟨?_, List.forall_mem_cons.2 ⟨?_, hdigits⟩⟩⟩
    · rw [List.length_cons, List.length_cons]
      omega
    · rw [hx]
      rfl
    · rw [hy]
      rfl
  | case4 h l rest hnone ih =>
    refine iff_of_false nofun ?_
    rintro ⟨heven, hdigits⟩
    obtain ⟨hh, hdigits⟩ := List.forall_mem_cons.1 hdigits
    obtain ⟨hl, hdigits⟩ := List.forall_mem_cons.1 hdigits
    rw [List.length_cons, List.length_cons] at heven
    obtain ⟨x, hx⟩ := Option.isSome_iff_exists.1 hh
    obtain ⟨y, hy⟩ := Option.isSome_iff_exists.1 hl
    obtain ⟨read, hread⟩ := Option.isSome_iff_exists.1 (ih.2 ⟨by omega, hdigits⟩)
    exact hnone x y read hx hy hread

/-! ## Ids -/

namespace ChunkId

/-- `s` consists of the digits of `id`, each of either case. -/
def Encodes (s : String) (id : ChunkId) : Prop :=
  s.toList.map hexValue = (hexDigits id.bytes.toList).map some

/-- The digits of more or fewer bytes than an id has. -/
def Misfit (s : String) : Prop :=
  (∀ c ∈ s.toList, (hexValue c).isSome) ∧ s.toList.length % 2 = 0 ∧ s.toList.length ≠ 64

theorem Encodes.length {s : String} {id : ChunkId} (h : Encodes s id) : s.toList.length = 64 := by
  have hlength := length_hexDecode ((hexDecode_eq_some _ _).2 h)
  rwa [Vector.length_toList] at hlength

theorem fromHex_eq_ok (s : String) (id : ChunkId) : fromHex s = .ok id ↔ Encodes s id := by
  rw [Encodes, ← hexDecode_eq_some, fromHex]
  cases hread : hexDecode s.toList with
  | none => exact iff_of_false (by simp) (by simp)
  | some bs =>
    dsimp only
    rw [Option.some.injEq]
    split_ifs with hsize
    · rw [FromHex.ok.injEq, ChunkId.mk.injEq, ← Vector.toList_inj]
      exact Iff.rfl
    · refine iff_of_false (by simp) fun heq => hsize ?_
      rw [heq, List.size_toArray, Vector.length_toList]

theorem fromHex_eq_panic (s : String) : fromHex s = .panic ↔ Misfit s := by
  have hsome := hexDecode_isSome s.toList
  rw [fromHex, Misfit, and_left_comm, ← and_assoc, ← hsome]
  cases hread : hexDecode s.toList with
  | none => exact iff_of_false (by simp) (by simp)
  | some bs =>
    have hlength := length_hexDecode hread
    dsimp only
    split_ifs with hsize
    · rw [List.size_toArray] at hsize
      exact iff_of_false (by simp) fun h => h.2 (by omega)
    · rw [List.size_toArray] at hsize
      exact iff_of_true rfl ⟨rfl, by omega⟩

theorem not_encodes_of_misfit {s : String} (h : Misfit s) (id : ChunkId) : ¬ Encodes s id :=
  fun henc => h.2.2 henc.length

/-- `from_hex` returns the id that `s` encodes, or else an error. -/
def ReadsHex (s : String) : Prop :=
  (∀ id, fromHex s = .ok id ↔ Encodes s id) ∧ (fromHex s = .err ↔ ∀ id, ¬ Encodes s id)

theorem readsHex_iff (s : String) : ReadsHex s ↔ ¬ Misfit s := by
  constructor
  · rintro ⟨-, herr⟩ hmisfit
    rw [(fromHex_eq_panic s).2 hmisfit] at herr
    exact absurd (herr.2 (not_encodes_of_misfit hmisfit)) nofun
  · intro hfit
    refine ⟨fromHex_eq_ok s, ?_⟩
    simp only [← fromHex_eq_ok]
    cases hread : fromHex s with
    | ok id => exact iff_of_false nofun fun h => h id rfl
    | err => exact iff_of_true rfl nofun
    | panic => exact absurd ((fromHex_eq_panic s).1 hread) hfit

end ChunkId

/-! ## Collection -/

theorem gcDangling_panics {hexes : List String} (h : ∃ hex ∈ hexes, ChunkId.fromHex hex = .panic)
    (report : GcReport) (s : Store) :
    ∃ msg, StorageEngine.gcDangling hexes report s = .error (.panic msg) s := by
  induction hexes generalizing report with
  | nil => simp at h
  | cons hex rest ih =>
    have hlater : ChunkId.fromHex hex ≠ .panic → ∃ hex ∈ rest, ChunkId.fromHex hex = .panic := by
      obtain ⟨bad, hmem, hbad⟩ := h
      rcases List.mem_cons.1 hmem with rfl | hmem
      · exact fun hnot => absurd hbad hnot
      · exact fun _ => ⟨bad, hmem, hbad⟩
    rw [StorageEngine.gcDangling]
    cases hid : ChunkId.fromHex hex with
    | panic => exact ⟨_, rfl⟩
    | err => exact ih (hlater (by simp [hid])) report
    | ok id =>
      obtain ⟨msg, hpanic⟩ := ih (hlater (by simp [hid])) report
      obtain ⟨msg', hpanic'⟩ := ih (hlater (by simp [hid])) { report with dangling := report.dangling + 1 }
      simp only [Effects.run_bind, BlobStore.chunkExists, Effects.run_get, Effects.run_pure]
      cases s.files.contains id.toHex with
      | true => exact ⟨msg, hpanic⟩
      | false => exact ⟨msg', hpanic'⟩

/-- A pass ends in a panic exactly if the index has the digits of more or fewer bytes. -/
theorem gc_panics_iff (grace : Nat) (s : Store) :
    (∃ msg s', StorageEngine.gc grace s = .error (.panic msg) s') ↔
      ∃ hex ∈ s.index.chunkLocations.keys, ChunkId.Misfit hex := by
  obtain ⟨report, s', hfiles, -⟩ := gcFilesReading_spec (fun _ => true) s.index.chunkLocations.keys
    s.clock grace (s.files.toList.filter fun p => p.1.utf8ByteSize = 64) {} s
  rw [gcFilesReading_readable] at hfiles
  have hrun : StorageEngine.gc grace s
      = StorageEngine.gcDangling s.index.chunkLocations.keys report s' := by
    simp only [StorageEngine.gc, Index.chunkIdHexes, BlobStore.iterChunkFiles, Effects.run_bind,
      Effects.run_get, Effects.run_pure, hfiles]
  simp only [← ChunkId.fromHex_eq_panic]
  rw [hrun]
  constructor
  · rintro ⟨msg, t, hpanic⟩
    by_contra hnone
    obtain ⟨report', hok, -⟩ := gcDangling_spec s.index.chunkLocations.keys
      (fun hex hhex hbad => hnone ⟨hex, hhex, hbad⟩) report s'
    rw [hok] at hpanic
    cases hpanic
  · intro hbad
    obtain ⟨msg, hpanic⟩ := gcDangling_panics hbad report s'
    exact ⟨msg, s', hpanic⟩

/-! ## The law -/

/-- Every id is read back, and a string is read as it should be unless it has the digits of more or
fewer bytes; so a collection ends without a panic exactly if no string of the index does. -/
theorem from_hex_total_iff (id : ChunkId) (s : String) (grace : Nat) (store : Store) :
    ChunkId.fromHex id.toHex = .ok id ∧
    (ChunkId.ReadsHex s ↔ ¬ ChunkId.Misfit s) ∧
    ((∃ msg store', StorageEngine.gc grace store = .error (.panic msg) store') ↔
      ∃ hex ∈ store.index.chunkLocations.keys, ChunkId.Misfit hex) :=
  ⟨ChunkId.fromHex_toHex id, ChunkId.readsHex_iff s, gc_panics_iff grace store⟩

/-- Two digits, of one byte. -/
theorem from_hex_short : ChunkId.fromHex "ab" = .panic ∧
    ¬ ((∀ id : ChunkId, ChunkId.fromHex id.toHex = .ok id) ∧ ∀ s, ChunkId.ReadsHex s) := by
  have hmisfit : ChunkId.Misfit "ab" := ⟨by decide, rfl, by decide⟩
  exact ⟨(ChunkId.fromHex_eq_panic _).2 hmisfit, fun h => (ChunkId.readsHex_iff _).1 (h.2 _) hmisfit⟩

end KaidaDB
