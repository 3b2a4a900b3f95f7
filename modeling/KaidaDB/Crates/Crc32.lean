import Mathlib.Data.Nat.Bitwise
import KaidaDB.Crates.Digest
import KaidaDB.Lib.Checksum

/-!
# CRC-32 tells texts apart that differ in one byte

The polynomial has its top bit set and half of a word has not, so the top bit of `crcBit x` is the
bit that was shifted out, and `crcBit` is injective on words (`crcBit_injOn`). A byte is eight such
steps after an exclusive or with the register, hence `crcByte` separates (`separates_crcByte`).
-/

namespace KaidaDB.Digest

open Set Checksum

/-- The values of the register. -/
def words32 : Set Nat := {x | x < 2 ^ 32}

theorem crcBit_lt {x : Nat} (h : x < 2 ^ 32) : crcBit x < 2 ^ 32 := by
  unfold crcBit
  split
  · exact Nat.xor_lt_two_pow (by omega) (by decide)
  · omega

/-- The top bit is the one that was shifted out. -/
theorem crcBit_testBit {x : Nat} (h : x < 2 ^ 32) : (crcBit x).testBit 31 = decide (x % 2 = 1) := by
  have hhalf : (x / 2).testBit 31 = false := Nat.testBit_lt_two_pow (by omega)
  unfold crcBit
  split
  next hodd => rw [Nat.testBit_xor, hhalf, decide_eq_true hodd]; decide
  next heven => rw [hhalf, decide_eq_false heven]

theorem crcBit_injOn : InjOn crcBit words32 := by
  intro x hx y hy h
  have hlow : decide (x % 2 = 1) = decide (y % 2 = 1) := by
    rw [← crcBit_testBit hx, ← crcBit_testBit hy, h]
  have hparity : x % 2 = 1 ↔ y % 2 = 1 := by simpa using hlow
  unfold crcBit at h
  by_cases hodd : x % 2 = 1
  · rw [if_pos hodd, if_pos (hparity.1 hodd)] at h
    have hhalf : x / 2 = y / 2 := Nat.xor_left_injective h
    have := hparity.1 hodd
    omega
  · rw [if_neg hodd, if_neg fun hy => hodd (hparity.2 hy)] at h
    have : ¬ y % 2 = 1 := fun hy => hodd (hparity.2 hy)
    omega

theorem crcByte_eq (crc : Nat) (b : UInt8) : crcByte crc b = crcBit^[8] (crc ^^^ b.toNat) := by
  simp only [crcByte, Function.iterate_succ_apply, Function.iterate_zero_apply]

theorem xor_byte_lt {crc : Nat} (h : crc < 2 ^ 32) (b : UInt8) : crc ^^^ b.toNat < 2 ^ 32 :=
  Nat.xor_lt_two_pow h (Nat.lt_trans b.toNat_lt (by decide))

theorem separates_crcByte : Separates crcByte words32 := by
  have hbit : MapsTo crcBit words32 words32 := fun _ hx => crcBit_lt hx
  have hmaps := hbit.iterate 8
  have hinj := crcBit_injOn.iterate hbit (n := 8)
  refine ⟨fun b crc h => ?_, fun b crc h crc' h' heq => ?_, fun crc h b b' heq => ?_⟩
  · simp only [crcByte_eq]
    exact hmaps (xor_byte_lt h b)
  · simp only [crcByte_eq] at heq
    exact Nat.xor_left_injective (hinj (xor_byte_lt h b) (xor_byte_lt h' b) heq)
  · simp only [crcByte_eq] at heq
    exact UInt8.toNat_inj.1 (Nat.xor_right_injective (hinj (xor_byte_lt h b) (xor_byte_lt h b') heq))

/-- A byte replaced by another one changes the checksum. -/
theorem crc32_set_ne {data : List UInt8} {i : Nat} {b : UInt8} (hi : i < data.length)
    (hb : b ≠ data[i]) : crc32 (data.set i b) ≠ crc32 data := by
  have hones : 2 ^ 32 - 1 ∈ words32 := by show 2 ^ 32 - 1 < 2 ^ 32; decide
  have hne := separates_crcByte.foldl_set_ne hi hb hones
  have hlt := separates_crcByte.foldl_mapsTo (data.set i b) hones
  have hlt' := separates_crcByte.foldl_mapsTo data hones
  simp only [words32, mem_ofPred_eq] at hlt hlt'
  intro h
  have hnat := congrArg UInt32.toNat h
  simp only [crc32, not32, UInt32.toNat_ofNat'] at hnat
  omega

end KaidaDB.Digest
