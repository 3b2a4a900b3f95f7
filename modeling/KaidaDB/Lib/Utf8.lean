import Mathlib.Data.List.Basic

/-!
# UTF-8 over byte lists

`encode` and `decode` are core's `List.utf8Encode` and `ByteArray.utf8Decode?` on `List UInt8`,
the form in which files are modelled. `decode` accepts exactly the encodings (`decode_eq_some`),
so a byte list has at most one reading (`encode_injective`), and an ASCII character shows up in
an encoding as its own byte and nowhere else (`mem_encode_ascii`): splitting text at a newline
byte never cuts a character.
-/

namespace Utf8

/-- The characters of a text are looked at one by one, and not all characters there are. -/
instance (priority := 2000) decidableForallMem {p : Char → Prop} [DecidablePred p] (l : List Char) :
    Decidable (∀ c ∈ l, p c) :=
  List.decidableBAll p l

/-- The bytes of a text. -/
def encode (l : List Char) : List UInt8 := l.flatMap String.utf8EncodeChar

/-- The text of a byte list, if it is valid UTF-8. -/
def decode (b : List UInt8) : Option (List Char) :=
  b.toByteArray.utf8Decode?.map Array.toList

@[simp] theorem encode_nil : encode [] = [] := rfl

theorem encode_append (l m : List Char) : encode (l ++ m) = encode l ++ encode m :=
  List.flatMap_append

theorem toByteArray_encode (l : List Char) : (encode l).toByteArray = l.utf8Encode := rfl

@[simp] theorem decode_encode (l : List Char) : decode (encode l) = some l := by
  unfold decode
  rw [toByteArray_encode, List.utf8Decode?_utf8Encode]
  rfl

theorem decode_eq_some {b : List UInt8} {l : List Char} : decode b = some l ↔ b = encode l := by
  refine ⟨fun h => ?_, fun h => h ▸ decode_encode l⟩
  obtain ⟨a, ha, rfl⟩ := Option.map_eq_some_iff.1 h
  have hget : (b.toByteArray.utf8Decode?.get (by simp [ha])) = a := by simp [ha]
  have henc := ByteArray.utf8Encode_get_utf8Decode? (b := b.toByteArray) (h := by simp [ha])
  rw [hget, ← toByteArray_encode] at henc
  have := congrArg (fun x : ByteArray => x.data.toList) henc
  simpa using this.symm

theorem encode_injective : Function.Injective encode := fun l m h =>
  Option.some.inj ((decode_encode l).symm.trans (h ▸ decode_encode m))

theorem encode_eq_nil {l : List Char} : encode l = [] ↔ l = [] :=
  ⟨fun h => encode_injective (h.trans encode_nil.symm), fun h => h ▸ rfl⟩

/-- A byte list that can be decoded after some text can be decoded itself. -/
theorem decode_of_append {l m : List Char} {b : List UInt8} (h : encode l ++ b = encode m) :
    ∃ n, b = encode n ∧ m = l ++ n := by
  have hp : l <+: m := by
    refine List.isPrefix_of_utf8Encode_append_eq_utf8Encode b.toByteArray ?_
    rw [← toByteArray_encode, ← toByteArray_encode, ← h]
    simp
  obtain ⟨n, rfl⟩ := hp
  rw [encode_append] at h
  exact ⟨n, List.append_cancel_left h, rfl⟩

/-! ## ASCII bytes -/

theorem utf8EncodeChar_ascii {c : Char} (hc : c.toNat < 0x80) :
    String.utf8EncodeChar c = [UInt8.ofNat c.toNat] := by
  have hv : c.val.toNat ≤ 0x7f := by have : c.val.toNat < 0x80 := hc; omega
  simp only [String.utf8EncodeChar, if_pos hv]
  rfl

theorem encode_ascii {l : List Char} (h : ∀ c ∈ l, c.toNat < 0x80) :
    encode l = l.map fun c => UInt8.ofNat c.toNat := by
  induction l with
  | nil => rfl
  | cons c l ih =>
    rw [List.forall_mem_cons] at h
    rw [show encode (c :: l) = String.utf8EncodeChar c ++ encode l from rfl, utf8EncodeChar_ascii h.1,
      ih h.2]
    rfl

theorem take_encode_ascii {l : List Char} (h : ∀ c ∈ l, c.toNat < 0x80) (n : Nat) :
    (encode l).take n = encode (l.take n) := by
  rw [encode_ascii h, encode_ascii fun c hc => h c (List.mem_of_mem_take hc), List.map_take]

theorem utf8ByteSize_ofList (l : List Char) : (String.ofList l).utf8ByteSize = (encode l).length := by
  rw [← List.size_toByteArray, toByteArray_encode]
  rfl

/-- Every byte of a character outside ASCII has its top bit set. -/
theorem le_of_mem_utf8EncodeChar {c : Char} {x : UInt8} (hx : x ∈ String.utf8EncodeChar c)
    (hc : 0x80 ≤ c.toNat) : 0x80 ≤ x.toNat := by
  have hv : ¬ c.val.toNat ≤ 0x7f := by have : 0x80 ≤ c.val.toNat := hc; omega
  have hb (m k : Nat) (hm : 0x80 ≤ k) (hk : k + m ≤ 256) (n : Nat) (hn : n < m) :
      0x80 ≤ (UInt8.ofNat (n + k)).toNat := by
    rw [UInt8.toNat_ofNat', Nat.mod_eq_of_lt (by omega)]
    omega
  simp only [String.utf8EncodeChar, if_neg hv] at hx
  split at hx
  · rcases List.mem_pair.1 hx with rfl | rfl
    · exact hb 32 _ (by decide) (by decide) _ (Nat.mod_lt _ (by decide))
    · exact hb 64 _ (by decide) (by decide) _ (Nat.mod_lt _ (by decide))
  split at hx <;> simp only [List.mem_cons, List.not_mem_nil, or_false] at hx
  · rcases hx with rfl | rfl | rfl
    · exact hb 16 _ (by decide) (by decide) _ (Nat.mod_lt _ (by decide))
    · exact hb 64 _ (by decide) (by decide) _ (Nat.mod_lt _ (by decide))
    · exact hb 64 _ (by decide) (by decide) _ (Nat.mod_lt _ (by decide))
  · rcases hx with rfl | rfl | rfl | rfl
    · exact hb 8 _ (by decide) (by decide) _ (Nat.mod_lt _ (by decide))
    · exact hb 64 _ (by decide) (by decide) _ (Nat.mod_lt _ (by decide))
    · exact hb 64 _ (by decide) (by decide) _ (Nat.mod_lt _ (by decide))
    · exact hb 64 _ (by decide) (by decide) _ (Nat.mod_lt _ (by decide))

/-- An ASCII byte of an encoding is the byte of that character. -/
theorem mem_encode_ascii {a : Char} (ha : a.toNat < 0x80) {l : List Char} :
    UInt8.ofNat a.toNat ∈ encode l ↔ a ∈ l := by
  have hat : (UInt8.ofNat a.toNat).toNat = a.toNat := by
    rw [UInt8.toNat_ofNat', Nat.mod_eq_of_lt (by omega)]
  constructor
  · intro h
    obtain ⟨c, hc, hac⟩ := List.mem_flatMap.1 h
    by_cases hlt : c.toNat < 0x80
    · rw [utf8EncodeChar_ascii hlt, List.mem_singleton] at hac
      have := congrArg UInt8.toNat hac
      rw [hat, UInt8.toNat_ofNat', Nat.mod_eq_of_lt (by omega)] at this
      exact Char.toNat_inj.1 this ▸ hc
    · have := le_of_mem_utf8EncodeChar hac (by omega)
      omega
  · intro h
    refine List.mem_flatMap.2 ⟨a, h, ?_⟩
    rw [utf8EncodeChar_ascii ha]
    exact List.mem_singleton.2 rfl

end Utf8
