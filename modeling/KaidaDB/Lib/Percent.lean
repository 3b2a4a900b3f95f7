import Mathlib.Data.List.Infix
import Mathlib.Tactic.IntervalCases
import KaidaDB.Lib.Separated
import KaidaDB.Lib.Utf8

/-!
# Percent-decoding

`Utf8.lossy` reads bytes as a text, with a replacement character for each longest beginning of a
character that is not one (`String::from_utf8_lossy`), and `Percent.decode` is the bytes of a text with
`%XX` for the byte `XX`. Neither ever gains an ASCII character (`asciiCount_lossy`,
`asciiCount_decode`), and an escape loses some. So the only texts that decode to themselves are those
without escapes (`lossy_decode_iff`). Bytes that are all escaped are read back (`decode_escape`).
-/

namespace Utf8

/-! ## Lossy reading -/

/-- The first character, if it has so many bytes behind its first one. -/
def charOf? (b : List UInt8) (n : Nat) : Option (Char × Nat) :=
  match decode (b.take (n + 1)) with
  | some [c] => some (c, n)
  | _ => none

/-- The first character, and the number of bytes behind its first one. -/
def char? (b : List UInt8) : Option (Char × Nat) :=
  [0, 1, 2, 3].findSome? (charOf? b)

def isCont (b : UInt8) : Bool := 0x80 ≤ b && b ≤ 0xBF

/-- The second byte may follow the first one, in a character of three or four bytes. -/
def follows (b c : UInt8) : Bool :=
  if b = 0xE0 then 0xA0 ≤ c && c ≤ 0xBF
  else if b = 0xED then 0x80 ≤ c && c ≤ 0x9F
  else if b = 0xF0 then 0x90 ≤ c && c ≤ 0xBF
  else if b = 0xF4 then 0x80 ≤ c && c ≤ 0x8F
  else 0xE1 ≤ b && b ≤ 0xF3 && isCont c

/-- For bytes that start with no character, those behind the first one that belong to the same
replacement character. -/
def badLength : List UInt8 → Nat
  | b :: c :: rest =>
    if follows b c = false then 0
    else if b < 0xF0 then 1
    else match rest with
      | d :: _ => if isCont d then 2 else 1
      | [] => 1
  | _ => 0

/-- `lossy` behind so many bytes of the character before. -/
def lossyFrom : Nat → List UInt8 → List Char
  | _, [] => []
  | skip + 1, _ :: b => lossyFrom skip b
  | 0, x :: b =>
    match char? (x :: b) with
    | some (c, n) => c :: lossyFrom n b
    | none => '\uFFFD' :: lossyFrom (badLength (x :: b)) b

/-- `String::from_utf8_lossy`. -/
def lossy (b : List UInt8) : List Char := lossyFrom 0 b

/-- The number of ASCII characters. -/
def asciiCount (l : List Char) : Nat := l.countP (·.toNat < 0x80)

/-- The number of ASCII bytes. -/
def asciiBytes (b : List UInt8) : Nat := b.countP (·.toNat < 0x80)

theorem encode_cons (c : Char) (l : List Char) : encode (c :: l) = String.utf8EncodeChar c ++ encode l :=
  rfl

theorem asciiBytes_char (c : Char) : asciiBytes (String.utf8EncodeChar c) = asciiCount [c] := by
  by_cases hc : c.toNat < 0x80
  · have hmod : c.toNat % 256 < 0x80 := by omega
    simp [asciiBytes, asciiCount, utf8EncodeChar_ascii hc, hc, hmod]
  · have hnone : asciiBytes (String.utf8EncodeChar c) = 0 := List.countP_eq_zero.2 fun x hx => by
      have := le_of_mem_utf8EncodeChar hx (by omega)
      simpa using this
    rw [hnone]
    simp [asciiCount, hc]

theorem asciiBytes_encode (l : List Char) : asciiBytes (encode l) = asciiCount l := by
  induction l with
  | nil => rfl
  | cons c l ih =>
    rw [encode_cons, asciiBytes, List.countP_append, ← asciiBytes, ← asciiBytes, ih, asciiBytes_char,
      asciiCount, asciiCount, asciiCount, ← List.countP_append, List.singleton_append]

theorem charOf?_eq_some {b : List UInt8} {n : Nat} {p : Char × Nat} :
    charOf? b n = some p ↔ b.take (n + 1) = String.utf8EncodeChar p.1 ∧ p.2 = n := by
  have hone : ∀ c, encode [c] = String.utf8EncodeChar c := fun c => List.append_nil _
  constructor
  · intro h
    rw [charOf?] at h
    split at h
    · rename_i c hc
      cases h
      exact ⟨(decode_eq_some.1 hc).trans (hone c), rfl⟩
    · cases h
  · rintro ⟨h, rfl⟩
    rw [charOf?, h, ← hone, decode_encode]

/-- What is read first are the bytes of a character. -/
theorem char?_eq_some {b : List UInt8} {c : Char} {n : Nat} (h : char? b = some (c, n)) :
    b.take (n + 1) = String.utf8EncodeChar c := by
  obtain ⟨m, -, hm⟩ := List.exists_of_findSome?_eq_some h
  obtain ⟨hc, rfl⟩ := charOf?_eq_some.1 hm
  exact hc

/-- No character begins with all bytes of another one. -/
theorem charOf?_before {c : Char} {b : List UInt8} {n : Nat}
    (hn : n + 1 < (String.utf8EncodeChar c).length) :
    charOf? (String.utf8EncodeChar c ++ b) n = none := by
  rw [Option.eq_none_iff_forall_ne_some]
  intro p hp
  obtain ⟨htake, -⟩ := charOf?_eq_some.1 hp
  rw [List.take_append_of_le_length (by omega)] at htake
  have hsplit : encode [p.1] ++ (String.utf8EncodeChar c).drop (n + 1) = encode [c] := by
    rw [encode_cons, encode_nil, List.append_nil, ← htake, List.take_append_drop, encode_cons, encode_nil,
      List.append_nil]
  obtain ⟨rest, hrest, heq⟩ := decode_of_append hsplit
  obtain ⟨-, rfl⟩ := List.cons.inj heq
  have := congrArg List.length hrest
  rw [List.length_drop, encode_nil, List.length_nil] at this
  omega

theorem char?_encode (c : Char) (b : List UInt8) :
    char? (String.utf8EncodeChar c ++ b) = some (c, (String.utf8EncodeChar c).length - 1) := by
  have hlength := String.length_utf8EncodeChar c
  have hpos := c.utf8Size_pos
  have hle := c.utf8Size_le_four
  have hlast : charOf? (String.utf8EncodeChar c ++ b) ((String.utf8EncodeChar c).length - 1)
      = some (c, (String.utf8EncodeChar c).length - 1) := by
    refine charOf?_eq_some.2 ⟨?_, rfl⟩
    rw [Nat.sub_add_cancel (by omega), List.take_left' rfl]
  have hbefore := @charOf?_before c b
  rw [← hlength] at hpos hle
  generalize (String.utf8EncodeChar c).length = n at hpos hle hlast hbefore
  rw [char?]
  interval_cases n
  · simp [hlast]
  · simp [hbefore (n := 0), hlast]
  · simp [hbefore (n := 0), hbefore (n := 1), hlast]
  · simp [hbefore (n := 0), hbefore (n := 1), hbefore (n := 2), hlast]

theorem lossyFrom_skip (n : Nat) (b : List UInt8) : lossyFrom n b = lossy (b.drop n) := by
  induction n generalizing b with
  | zero => rfl
  | succ n ih =>
    cases b with
    | nil => rfl
    | cons x b => rw [lossyFrom, ih, List.drop_succ_cons]

/-- **Valid UTF-8 is read as it is.** -/
theorem lossy_encode (l : List Char) : lossy (encode l) = l := by
  induction l with
  | nil => rfl
  | cons c l ih =>
    have hchar := char?_encode c (encode l)
    have hpos := c.utf8Size_pos
    have hlength := String.length_utf8EncodeChar c
    rw [encode_cons]
    cases hbytes : String.utf8EncodeChar c with
    | nil =>
      rw [hbytes] at hlength
      rw [← hlength] at hpos
      cases hpos
    | cons x xs =>
      rw [hbytes, List.cons_append] at hchar
      rw [List.cons_append, lossy, lossyFrom, hchar]
      dsimp only
      rw [lossyFrom_skip, List.length_cons, Nat.add_sub_cancel, List.drop_left, ih]

theorem asciiBytes_cons (x : UInt8) (b : List UInt8) :
    asciiBytes (x :: b) = asciiBytes b + if x.toNat < 0x80 then 1 else 0 := by
  simp [asciiBytes, List.countP_cons]

theorem asciiCount_cons (c : Char) (l : List Char) :
    asciiCount (c :: l) = asciiCount l + if c.toNat < 0x80 then 1 else 0 := by
  simp [asciiCount, List.countP_cons]

/-- An ASCII character is read from its byte. -/
theorem ascii_of_char? {x : UInt8} {b : List UInt8} {c : Char} {n : Nat}
    (h : char? (x :: b) = some (c, n)) (hc : c.toNat < 0x80) : x.toNat < 0x80 := by
  have hbytes := char?_eq_some h
  rw [utf8EncodeChar_ascii hc, List.take_succ_cons] at hbytes
  obtain ⟨rfl, -⟩ := List.cons.inj hbytes
  rw [UInt8.toNat_ofNat', Nat.mod_eq_of_lt (by omega)]
  exact hc

/-- **No ASCII character is gained.** -/
theorem asciiCount_lossyFrom (b : List UInt8) : ∀ n, asciiCount (lossyFrom n b) ≤ asciiBytes b := by
  induction b with
  | nil =>
    intro n
    cases n <;> exact Nat.zero_le _
  | cons x b ih =>
    intro n
    rw [asciiBytes_cons]
    cases n with
    | succ n => exact Nat.le_trans (ih n) (Nat.le_add_right _ _)
    | zero =>
      rw [lossyFrom]
      cases hchar : char? (x :: b) with
      | none =>
        dsimp only
        rw [asciiCount_cons, if_neg (by decide)]
        exact Nat.le_trans (ih _) (Nat.le_add_right _ _)
      | some p =>
        obtain ⟨c, m⟩ := p
        have hih := ih m
        have hascii := @ascii_of_char? x b c m hchar
        dsimp only
        rw [asciiCount_cons]
        split_ifs <;> omega

end Utf8

namespace Percent

open Utf8

/-! ## Escapes -/

/-- The value of a hex digit of either case. -/
def hexDigit? (c : Char) : Option Nat :=
  if '0' ≤ c ∧ c ≤ '9' then some (c.toNat - 48)
  else if 'a' ≤ c ∧ c ≤ 'f' then some (c.toNat - 87)
  else if 'A' ≤ c ∧ c ≤ 'F' then some (c.toNat - 55)
  else none

/-- The byte that three characters stand for. -/
def escaped? (c h l : Char) : Option UInt8 :=
  if c = '%' then (hexDigit? h).bind fun x => (hexDigit? l).map fun y => UInt8.ofNat (16 * x + y)
  else none

/-- The bytes of a text with escapes. -/
def decode : List Char → List UInt8
  | c :: h :: l :: rest =>
    match escaped? c h l with
    | some b => b :: decode rest
    | none => String.utf8EncodeChar c ++ decode (h :: l :: rest)
  | rest => encode rest

/-- There is an escape in the text. -/
def HasEscape (l : List Char) : Prop := ∃ h d, ['%', h, d] <:+: l ∧
  (hexDigit? h).isSome = true ∧ (hexDigit? d).isSome = true

theorem escaped?_isSome {c h d : Char} : (escaped? c h d).isSome = true ↔
    c = '%' ∧ (hexDigit? h).isSome = true ∧ (hexDigit? d).isSome = true := by
  rw [escaped?]
  split_ifs with hc
  · cases hexDigit? h <;> cases hexDigit? d <;> simp [hc]
  · simp [hc]

theorem hasEscape_cons {c : Char} {l : List Char} : HasEscape (c :: l) ↔
    (∃ h d b, l = h :: d :: b ∧ (escaped? c h d).isSome = true) ∨ HasEscape l := by
  constructor
  · rintro ⟨h, d, hin, hh, hd⟩
    rcases List.infix_cons_iff.1 hin with ⟨b, hb⟩ | hin
    · obtain ⟨rfl, rfl⟩ := List.cons.inj hb
      exact .inl ⟨h, d, b, rfl, escaped?_isSome.2 ⟨rfl, hh, hd⟩⟩
    · exact .inr ⟨h, d, hin, hh, hd⟩
  · rintro (⟨h, d, b, rfl, hsome⟩ | ⟨h, d, hin, hh, hd⟩)
    · obtain ⟨rfl, hh, hd⟩ := escaped?_isSome.1 hsome
      exact ⟨h, d, ⟨[], b, rfl⟩, hh, hd⟩
    · exact ⟨h, d, hin.trans (List.suffix_cons _ _).isInfix, hh, hd⟩

theorem ascii_of_hexDigit? {c : Char} (h : (hexDigit? c).isSome = true) : c.toNat < 0x80 := by
  have hle : ∀ d : Char, c ≤ d → c.toNat ≤ d.toNat := fun d hd => hd
  rw [hexDigit?] at h
  split_ifs at h with h1 h2 h3
  · exact Nat.lt_of_le_of_lt (hle _ h1.2) (by decide)
  · exact Nat.lt_of_le_of_lt (hle _ h2.2) (by decide)
  · exact Nat.lt_of_le_of_lt (hle _ h3.2) (by decide)
  · cases h

/-- Decoding gains no ASCII characters, loses some with each escape, and does nothing else. -/
theorem decode_cases (l : List Char) :
    (¬ HasEscape l ∧ decode l = encode l) ∨ (HasEscape l ∧ asciiBytes (decode l) < asciiCount l) := by
  induction l using decode.induct with
  | case1 c h d rest b hb ih =>
    have hsome : (escaped? c h d).isSome = true := by rw [hb]; rfl
    obtain ⟨rfl, hh, hd⟩ := escaped?_isSome.1 hsome
    have hrest : asciiBytes (decode rest) ≤ asciiCount rest := by
      rcases ih with ⟨-, heq⟩ | ⟨-, hlt⟩
      · rw [heq, asciiBytes_encode]
      · exact Nat.le_of_lt hlt
    refine .inr ⟨hasEscape_cons.2 (.inl ⟨h, d, rest, rfl, hsome⟩), ?_⟩
    rw [decode, hb]
    dsimp only
    rw [asciiBytes_cons, asciiCount_cons, asciiCount_cons, asciiCount_cons,
      if_pos (ascii_of_hexDigit? hh), if_pos (ascii_of_hexDigit? hd)]
    split_ifs <;> omega
  | case2 c h d rest hnone ih =>
    have hcons : HasEscape (c :: h :: d :: rest) ↔ HasEscape (h :: d :: rest) := by
      rw [hasEscape_cons]
      refine or_iff_right ?_
      rintro ⟨h', d', b, heq, hsome⟩
      obtain ⟨rfl, rfl, rfl⟩ : h = h' ∧ d = d' ∧ rest = b := by simpa using heq
      rw [hnone] at hsome
      cases hsome
    rw [hcons, decode, hnone]
    dsimp only
    rcases ih with ⟨hno, heq⟩ | ⟨hyes, hlt⟩
    · exact .inl ⟨hno, by rw [heq, ← encode_cons]⟩
    · refine .inr ⟨hyes, ?_⟩
      rw [asciiBytes, List.countP_append, ← asciiBytes, ← asciiBytes, asciiBytes_char,
        asciiCount_cons c (h :: d :: rest)]
      have hone : asciiCount [c] = if c.toNat < 0x80 then 1 else 0 := by
        rw [asciiCount_cons]
        exact Nat.zero_add _
      omega
  | case3 l hshort =>
    refine .inl ⟨fun hescape => ?_, by rw [decode]; exact hshort⟩
    obtain ⟨h, d, hin, -⟩ := hescape
    have hlen := hin.length_le
    match l, hshort with
    | c :: h :: d :: rest, hshort => exact hshort c h d rest rfl
    | [], _ | [_], _ | [_, _], _ => simp at hlen

/-- Nothing is gained by decoding, and something lost with an escape. -/
theorem asciiCount_lossy_decode (l : List Char) :
    asciiCount (lossy (decode l)) ≤ asciiCount l ∧
      (HasEscape l → asciiCount (lossy (decode l)) < asciiCount l) := by
  have hle : asciiCount (lossy (decode l)) ≤ asciiBytes (decode l) := asciiCount_lossyFrom (decode l) 0
  rcases decode_cases l with ⟨hno, heq⟩ | ⟨-, hlt⟩
  · rw [heq, asciiBytes_encode] at hle
    rw [heq]
    exact ⟨hle, fun hyes => absurd hyes hno⟩
  · exact ⟨by omega, fun _ => by omega⟩

/-- **The texts that are read as they are** are those without escapes. -/
theorem lossy_decode_iff {l : List Char} : lossy (decode l) = l ↔ ¬ HasEscape l := by
  constructor
  · intro heq hyes
    have hlt := (asciiCount_lossy_decode l).2 hyes
    rw [heq] at hlt
    exact Nat.lt_irrefl _ hlt
  · intro hno
    rcases decode_cases l with ⟨-, heq⟩ | ⟨hyes, -⟩
    · rw [heq, lossy_encode]
    · exact absurd hyes hno

/-- An escape is on one side of a slash. -/
theorem hasEscape_append {a b : List Char} :
    HasEscape (a ++ '/' :: b) ↔ HasEscape a ∨ HasEscape b := by
  have hplain : ∀ {h d : Char}, (hexDigit? h).isSome = true → (hexDigit? d).isSome = true →
      '/' ∉ ['%', h, d] := by
    intro h d hh hd hmem
    rcases List.mem_cons.1 hmem with heq | hmem
    · cases heq
    rcases List.mem_cons.1 hmem with rfl | hmem
    · cases hh
    · obtain rfl := List.mem_singleton.1 hmem
      cases hd
  constructor
  · rintro ⟨h, d, hin, hh, hd⟩
    exact ((Separated.infix_append_iff (hplain hh hd)).1 hin).imp (fun hin => ⟨h, d, hin, hh, hd⟩)
      fun hin => ⟨h, d, hin, hh, hd⟩
  · rintro (⟨h, d, hin, hh, hd⟩ | ⟨h, d, hin, hh, hd⟩)
    · exact ⟨h, d, (Separated.infix_append_iff (hplain hh hd)).2 (.inl hin), hh, hd⟩
    · exact ⟨h, d, (Separated.infix_append_iff (hplain hh hd)).2 (.inr hin), hh, hd⟩

/-! ## Escaping -/

/-- Each byte as an escape. -/
def escape (b : List UInt8) : List Char :=
  b.flatMap fun x => ['%', Nat.digitChar (x.toNat / 16), Nat.digitChar (x.toNat % 16)]

theorem hexDigit?_digitChar : ∀ n < 16, hexDigit? (Nat.digitChar n) = some n := by decide

@[simp] theorem decode_escape (b : List UInt8) : decode (escape b) = b := by
  induction b with
  | nil => rfl
  | cons x b ih =>
    have hx := x.toNat_lt
    have hbyte : escaped? '%' (Nat.digitChar (x.toNat / 16)) (Nat.digitChar (x.toNat % 16)) = some x := by
      rw [escaped?, if_pos rfl, hexDigit?_digitChar _ (by omega), hexDigit?_digitChar _ (by omega)]
      show some (UInt8.ofNat (16 * (x.toNat / 16) + x.toNat % 16)) = some x
      rw [Nat.div_add_mod, UInt8.ofNat_toNat]
    show decode ('%' :: Nat.digitChar (x.toNat / 16) :: Nat.digitChar (x.toNat % 16) :: escape b) = x :: b
    rw [decode, hbyte]
    exact congrArg (x :: ·) ih

end Percent
