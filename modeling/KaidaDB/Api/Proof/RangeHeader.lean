import KaidaDB.Api.RangeHeader

/-!
# Which Range headers select a range

`Accepts` describes what `parse_range_header` selects, for every string (`parseRangeHeader_eq`): numbers
may have a sign, and anything that is no number below `2 ^ 64` stands for the end of the object. It
selects what was asked for exactly if the string is not `Misread` (`ranges_selected_iff`).
-/

namespace KaidaDB

open Decimal

theorem parseU64_eq_some {s : List Char} {n : Nat} :
    parseU64 s = some n ↔ Signed s n ∧ n < 2 ^ 64 := parse_eq_some (Nat.two_pow_pos 64)

theorem parseU64_eq_none {s : List Char} : parseU64 s = none ↔ ∀ n, Signed s n → 2 ^ 64 ≤ n :=
  parse_eq_none (Nat.two_pow_pos 64)

/-- The ranges that are selected, with what is selected. -/
inductive Accepts (totalSize : Nat) : List Char → Nat → Nat → Prop
  | bounds {a b : List Char} {first : Nat} (ha : Signed a first) (hlt : first < totalSize)
      (hb : ∀ n, Signed b n → n < 2 ^ 64 → first ≤ n) :
      Accepts totalSize ("bytes=".toList ++ a ++ '-' :: b) first (lastByte totalSize b - first + 1)
  | suffix {s : List Char} {n : Nat} (hs : Signed s n) (hlt : n < 2 ^ 64) (hpos : 0 < n) :
      Accepts totalSize ("bytes=-".toList ++ s) (totalSize - n) (totalSize - (totalSize - n))

/-! ## Where the string is cut -/

theorem splitn2_append {a : List Char} (h : '-' ∉ a) (b : List Char) :
    splitn2 '-' (a ++ '-' :: b) = [a, b] := by
  have hp : ∀ c ∈ a, (decide (c ≠ '-')) = true := fun c hc => by
    simpa using fun hd : c = '-' => h (hd ▸ hc)
  rw [splitn2, if_pos (by simp), List.takeWhile_append_of_pos hp, List.dropWhile_append_of_pos hp]
  simp

theorem splitn2_cases (s : List Char) :
    splitn2 '-' s = [s] ∧ '-' ∉ s ∨ ∃ a b, s = a ++ '-' :: b ∧ '-' ∉ a ∧ splitn2 '-' s = [a, b] := by
  by_cases h : '-' ∈ s
  · obtain ⟨a, b, rfl, ha⟩ := List.eq_append_cons_of_mem h
    exact .inr ⟨a, b, rfl, ha, splitn2_append ha b⟩
  · exact .inl ⟨if_neg h, h⟩

theorem splitn2_inj {a a' b b' : List Char} (h : '-' ∉ a) (h' : '-' ∉ a')
    (heq : a ++ '-' :: b = a' ++ '-' :: b') : a = a' ∧ b = b' := by
  have := (splitn2_append h b).symm.trans ((congrArg (splitn2 '-') heq).trans (splitn2_append h' b'))
  simpa using this

/-! ## What is accepted -/

theorem suffixRange_eq {totalSize start length : Nat} {s : List Char} :
    suffixRange s totalSize = (start, length, true) ↔
      ∃ n, Signed s n ∧ n < 2 ^ 64 ∧ 0 < n ∧ start = totalSize - n ∧
        length = totalSize - (totalSize - n) := by
  unfold suffixRange
  cases hp : parseU64 s with
  | none =>
    have hlarge := parseU64_eq_none.1 hp
    refine ⟨(fun h => by simp at h), ?_⟩
    rintro ⟨n, hs, hlt, -⟩
    exact absurd (hlarge n hs) (by omega)
  | some n =>
    obtain ⟨hs, hlt⟩ := parseU64_eq_some.1 hp
    dsimp only
    split_ifs with h0
    · refine ⟨(fun h => by simp at h), ?_⟩
      rintro ⟨n', hs', -, hpos, -⟩
      rw [hs'.inj hs] at hpos
      omega
    · simp only [Prod.mk.injEq, and_true]
      refine ⟨fun ⟨h1, h2⟩ => ⟨n, hs, hlt, by omega, h1.symm, h2.symm⟩, ?_⟩
      rintro ⟨n', hs', -, -, rfl, rfl⟩
      rw [hs'.inj hs]
      exact ⟨rfl, rfl⟩

/-- An empty end is read like one that is no number. -/
theorem lastByte_eq (totalSize : Nat) (b : List Char) :
    lastByte totalSize b = (parseU64 b).elim (totalSize - 1) (min · (totalSize - 1)) := by
  unfold lastByte
  split_ifs with hb
  · rw [hb]
    rfl
  · cases parseU64 b <;> rfl

theorem le_lastByte {totalSize first : Nat} {b : List Char} (hlt : first < totalSize) :
    first ≤ lastByte totalSize b ↔ ∀ n, Signed b n → n < 2 ^ 64 → first ≤ n := by
  rw [lastByte_eq]
  cases hp : parseU64 b with
  | none =>
    have hlarge := parseU64_eq_none.1 hp
    refine ⟨fun _ n hs hn => absurd (hlarge n hs) (by omega), fun _ => ?_⟩
    show first ≤ totalSize - 1
    omega
  | some n =>
    obtain ⟨hs, hn⟩ := parseU64_eq_some.1 hp
    show first ≤ min n (totalSize - 1) ↔ _
    refine ⟨fun h n' hs' _ => ?_, fun h => ?_⟩
    · rw [hs'.inj hs]
      omega
    · have := h n hs hn
      omega

theorem boundedRange_eq {totalSize start length : Nat} {a b : List Char} :
    boundedRange a b totalSize = (start, length, true) ↔
      Signed a start ∧ start < 2 ^ 64 ∧ start < totalSize ∧ start ≤ lastByte totalSize b ∧
        length = lastByte totalSize b - start + 1 := by
  unfold boundedRange
  cases hp : parseU64 a with
  | none =>
    have hlarge := parseU64_eq_none.1 hp
    refine ⟨(fun h => by simp at h), ?_⟩
    rintro ⟨hs, hlt, -⟩
    exact absurd (hlarge start hs) (by omega)
  | some first =>
    obtain ⟨hs, hlt⟩ := parseU64_eq_some.1 hp
    dsimp only
    split_ifs with h1 h2
    · refine ⟨(fun h => by simp at h), ?_⟩
      rintro ⟨hs', -, hlt', -⟩
      rw [hs'.inj hs] at hlt'
      omega
    · refine ⟨(fun h => by simp at h), ?_⟩
      rintro ⟨hs', -, -, hle, -⟩
      rw [hs'.inj hs] at hle
      omega
    · simp only [Prod.mk.injEq, and_true]
      constructor
      · rintro ⟨rfl, rfl⟩
        exact ⟨hs, hlt, by omega, by omega, rfl⟩
      · rintro ⟨hs', -, -, -, rfl⟩
        rw [hs'.inj hs]
        exact ⟨rfl, rfl⟩

theorem dropPrefix?_eq_some {p s r : List Char} : s.dropPrefix? p = some r ↔ s = p ++ r := by
  rw [List.dropPrefix?_eq_some_iff]
  simp

theorem accepts_iff {totalSize start length : Nat} {text : List Char} :
    Accepts totalSize text start length ↔
      (∃ a b, text = "bytes=".toList ++ a ++ '-' :: b ∧ Signed a start ∧ start < totalSize ∧
        start ≤ lastByte totalSize b ∧ length = lastByte totalSize b - start + 1) ∨
      ∃ s, text = "bytes=-".toList ++ s ∧ suffixRange s totalSize = (start, length, true) := by
  constructor
  · intro h
    cases h with
    | bounds ha hlt hb => exact .inl ⟨_, _, rfl, ha, hlt, (le_lastByte hlt).2 hb, rfl⟩
    | suffix hs hlt hpos => exact .inr ⟨_, rfl, suffixRange_eq.2 ⟨_, hs, hlt, hpos, rfl, rfl⟩⟩
  · rintro (⟨a, b, rfl, ha, hlt, hle, rfl⟩ | ⟨s, rfl, hs⟩)
    · exact .bounds ha hlt ((le_lastByte hlt).1 hle)
    · obtain ⟨n, hn, hlt, hpos, rfl, rfl⟩ := suffixRange_eq.1 hs
      exact .suffix hn hlt hpos

/-- What follows `bytes=` decides which of the two forms it is. -/
theorem parseRangeHeader_eq {range : Option Bytes} {totalSize : Nat} (h0 : 0 < totalSize)
    (h64 : totalSize < 2 ^ 64) {str : String} (hstr : range.bind headerStr = some str)
    (start length : Nat) :
    parseRangeHeader range totalSize = (start, length, true) ↔
      Accepts totalSize str.toList start length := by
  unfold parseRangeHeader
  rw [if_neg (by omega), hstr, accepts_iff]
  dsimp only
  cases hbytes : str.toList.dropPrefix? "bytes=".toList with
  | none =>
    have hno : ∀ r, str.toList ≠ "bytes=".toList ++ r := fun r h => by
      rw [dropPrefix?_eq_some.2 h] at hbytes
      cases hbytes
    refine ⟨(fun h => by simp at h), ?_⟩
    rintro (⟨a, b, htext, -⟩ | ⟨s, htext, -⟩)
    · exact absurd (htext.trans (List.append_assoc ..)) (hno _)
    · exact absurd htext (hno ('-' :: s))
  | some bytesRange =>
    rw [dropPrefix?_eq_some.1 hbytes]
    dsimp only
    have hcut : ∀ a b, "bytes=".toList ++ bytesRange = "bytes=".toList ++ a ++ '-' :: b ↔
        bytesRange = a ++ '-' :: b := fun a b => by
      rw [List.append_assoc, List.append_cancel_left_eq]
    have hsuf : ∀ s, "bytes=".toList ++ bytesRange = "bytes=-".toList ++ s ↔
        bytesRange = '-' :: s := fun s => List.append_right_inj _
    simp only [hcut, hsuf]
    cases hdash : bytesRange.dropPrefix? ['-'] with
    | some suffix =>
      obtain rfl := dropPrefix?_eq_some.1 hdash
      refine ⟨fun h => .inr ⟨suffix, rfl, h⟩, ?_⟩
      rintro (⟨a, b, htext, ha, -⟩ | ⟨s, htext, hs⟩)
      · cases a with
        | nil => exact absurd rfl ha.ne_nil
        | cons c a =>
          cases htext
          exact absurd List.mem_cons_self ha.not_mem
      · cases htext
        exact hs
    | none =>
      have hno : ∀ s, bytesRange ≠ '-' :: s := fun s h => by
        rw [dropPrefix?_eq_some.2 h] at hdash
        cases hdash
      dsimp only
      obtain ⟨hsplit, hmem⟩ | ⟨a, b, rfl, ha, hsplit⟩ := splitn2_cases bytesRange
      · rw [hsplit]
        refine ⟨(fun h => by simp at h), ?_⟩
        rintro (⟨a, b, rfl, -⟩ | ⟨s, htext, -⟩)
        · simp at hmem
        · exact absurd htext (hno s)
      · rw [hsplit]
        dsimp only
        rw [boundedRange_eq]
        constructor
        · rintro ⟨hs, -, hlt, hle, rfl⟩
          exact .inl ⟨a, b, rfl, hs, hlt, hle, rfl⟩
        · rintro (⟨a', b', htext, hs, hlt, hle, rfl⟩ | ⟨s, htext, -⟩)
          · obtain ⟨rfl, rfl⟩ := splitn2_inj ha hs.not_mem htext
            exact ⟨hs, by omega, hlt, hle, rfl⟩
          · exact absurd htext (hno s)

/-! ## Accepted and asked for -/

theorem bounds_ne_suffix {a b s : List Char} {n : Nat} (ha : Signed a n) :
    "bytes=".toList ++ a ++ '-' :: b ≠ "bytes=-".toList ++ s := by
  intro h
  have htail : a ++ '-' :: b = '-' :: s := by
    rw [List.append_assoc] at h
    exact List.append_cancel_left h
  cases a with
  | nil => exact ha.ne_nil rfl
  | cons c a =>
    cases htail
    exact ha.not_mem List.mem_cons_self

theorem bounds_inj {a a' b b' : List Char} {n n' : Nat} (ha : Signed a n) (ha' : Signed a' n')
    (h : "bytes=".toList ++ a ++ '-' :: b = "bytes=".toList ++ a' ++ '-' :: b') :
    a = a' ∧ b = b' := by
  rw [List.append_assoc, List.append_assoc] at h
  exact splitn2_inj ha.not_mem ha'.not_mem (List.append_cancel_left h)

theorem SingleRange.cases {totalSize start length : Nat} {text : List Char}
    (h : SingleRange totalSize text start length) :
    (∃ a b, text = "bytes=".toList ++ a ++ '-' :: b ∧ IsNumber a ∧ (b = [] ∨ IsNumber b)) ∨
      ∃ n, text = "bytes=-".toList ++ n ∧ IsNumber n := by
  cases h with
  | bounds ha hb hle hlt => exact .inl ⟨_, _, rfl, ha, .inr hb⟩
  | start ha hlt => exact .inl ⟨_, _, rfl, ha, .inl rfl⟩
  | suffix hn hpos => exact .inr ⟨_, rfl, hn⟩

/-- A string that is misread is accepted without asking for a range, or the other way round. -/
theorem Misread.differs {totalSize : Nat} {text : List Char} (hmis : Misread totalSize text) :
    ¬ ∀ start length, Accepts totalSize text start length ↔
      SingleRange totalSize text start length := by
  intro h
  cases hmis with
  | @signedSuffix n hn hpos hlt =>
    obtain ⟨a, b, htext, ha, -⟩ | ⟨n', htext, hn'⟩ :=
      ((h _ _).1 (.suffix ⟨n, hn, rfl, .inr rfl⟩ hlt hpos)).cases
    · exact bounds_ne_suffix ha.signed htext.symm
    · obtain rfl := List.append_cancel_left htext
      exact not_isNumber_plus n hn'
  | @longSuffix n hn hlong =>
    obtain ⟨a, b, htext, ha, -⟩ | ⟨s, htext, hs⟩ :=
      accepts_iff.1 ((h _ _).2 (.suffix hn (Nat.lt_of_lt_of_le (Nat.two_pow_pos 64) hlong)))
    · exact bounds_ne_suffix ha htext.symm
    · obtain rfl := List.append_cancel_left htext
      obtain ⟨n', hn', hlt, -⟩ := suffixRange_eq.1 hs
      rw [hn.value_eq hn'] at hlong
      omega
  | @signedStart a b ha hlt hb =>
    have hsigned : Signed ('+' :: a) (value a) := ⟨a, ha, rfl, .inr rfl⟩
    obtain ⟨a', b', htext, ha', -⟩ | ⟨n, htext, hn⟩ :=
      ((h _ _).1 (.bounds hsigned hlt fun n hn _ => hb n hn)).cases
    · obtain ⟨rfl, -⟩ := bounds_inj hsigned ha'.signed htext
      exact not_isNumber_plus a ha'
    · exact bounds_ne_suffix hsigned htext
  | @malformedEnd a b ha hlt hnil hnum hb =>
    obtain ⟨a', b', htext, ha', hb'⟩ | ⟨n, htext, hn⟩ :=
      ((h _ _).1 (.bounds ha.signed hlt fun n hn _ => hb n hn)).cases
    · obtain ⟨rfl, rfl⟩ := bounds_inj ha.signed ha'.signed htext
      exact hb'.elim hnil hnum
    · exact bounds_ne_suffix ha.signed htext

/-- The last byte for an end in digits of any length. -/
theorem lastByte_of_isNumber {totalSize : Nat} (h64 : totalSize < 2 ^ 64) {b : List Char}
    (hb : IsNumber b) : lastByte totalSize b = min (value b) (totalSize - 1) := by
  rw [lastByte_eq]
  cases hp : parseU64 b with
  | none =>
    have hlarge := parseU64_eq_none.1 hp _ hb.signed
    show totalSize - 1 = _
    omega
  | some n =>
    rw [hb.value_eq (parseU64_eq_some.1 hp).1]
    rfl

theorem accepts_iff_singleRange {totalSize : Nat} (h64 : totalSize < 2 ^ 64) {text : List Char}
    (hok : ¬ Misread totalSize text) (start length : Nat) :
    Accepts totalSize text start length ↔ SingleRange totalSize text start length := by
  constructor
  · intro h
    cases h with
    | @bounds a b _ ha hlt hb =>
      have hb' : ∀ n, Signed b n → start ≤ n := fun n hn => by
        by_cases hn64 : n < 2 ^ 64
        · exact hb n hn hn64
        · omega
      obtain ⟨ds, hds, rfl, rfl | rfl⟩ := ha
      · by_cases hnil : b = []
        · have hlast : lastByte totalSize b - value a + 1 = totalSize - value a := by
            rw [hnil, lastByte, if_pos rfl]
            omega
          rw [hlast, hnil]
          exact .start hds hlt
        · by_cases hnum : IsNumber b
          · have hle : value a ≤ value b := hb' _ hnum.signed
            have hlast : lastByte totalSize b - value a + 1
                = min (value b) (totalSize - 1) + 1 - value a := by
              rw [lastByte_of_isNumber h64 hnum]
              omega
            rw [hlast]
            exact .bounds hds hnum hle hlt
          · exact absurd (.malformedEnd hds hlt hnil hnum hb') hok
      · exact absurd (.signedStart hds hlt hb') hok
    | @suffix s n hs hlt hpos =>
      obtain ⟨ds, hds, rfl, rfl | rfl⟩ := hs
      · have hstart : totalSize - value s = totalSize - min (value s) totalSize := by omega
        have hlen : totalSize - (totalSize - value s) = min (value s) totalSize := by omega
        rw [hlen, hstart]
        exact .suffix hds hpos
      · exact absurd (.signedSuffix hds hpos hlt) hok
  · intro h
    cases h with
    | @bounds a b ha hb hle hlt =>
      have hlast : min (value b) (totalSize - 1) + 1 - value a
          = lastByte totalSize b - value a + 1 := by
        rw [lastByte_of_isNumber h64 hb]
        omega
      rw [hlast]
      exact .bounds ha.signed hlt fun n hn _ => hb.value_eq hn ▸ hle
    | @start a ha hlt =>
      have hlast : totalSize - value a = lastByte totalSize [] - value a + 1 := by
        rw [lastByte, if_pos rfl]
        omega
      rw [hlast]
      exact .bounds ha.signed hlt fun n hn _ => absurd rfl hn.ne_nil
    | @suffix n hn hpos =>
      by_cases hlt : value n < 2 ^ 64
      · have hstart : totalSize - min (value n) totalSize = totalSize - value n := by omega
        have hlen : min (value n) totalSize = totalSize - (totalSize - value n) := by omega
        rw [hstart, hlen]
        exact .suffix hn.signed hlt hpos
      · exact absurd (.longSuffix hn (Nat.le_of_not_lt hlt)) hok

theorem suffixRange_cases (s : List Char) (totalSize : Nat) :
    suffixRange s totalSize = (0, 0, false) ∨ (suffixRange s totalSize).2.2 = true := by
  unfold suffixRange
  cases parseU64 s with
  | none => exact .inl rfl
  | some n =>
    dsimp only
    split_ifs
    · exact .inl rfl
    · exact .inr rfl

theorem boundedRange_cases (a b : List Char) (totalSize : Nat) :
    boundedRange a b totalSize = (0, 0, false) ∨ (boundedRange a b totalSize).2.2 = true := by
  unfold boundedRange
  cases parseU64 a with
  | none => exact .inl rfl
  | some start =>
    dsimp only
    split_ifs
    · exact .inl rfl
    · exact .inl rfl
    · exact .inr rfl

/-- Where no range is selected, the whole object is. -/
theorem parseRangeHeader_cases (range : Option Bytes) (totalSize : Nat) :
    parseRangeHeader range totalSize = (0, 0, false) ∨
      (parseRangeHeader range totalSize).2.2 = true := by
  unfold parseRangeHeader
  split_ifs
  · exact .inl rfl
  · cases range.bind headerStr with
    | none => exact .inl rfl
    | some rangeStr =>
      dsimp only
      cases rangeStr.toList.dropPrefix? "bytes=".toList with
      | none => exact .inl rfl
      | some bytesRange =>
        dsimp only
        cases bytesRange.dropPrefix? ['-'] with
        | some suffix => exact suffixRange_cases suffix totalSize
        | none =>
          dsimp only
          split
          · exact boundedRange_cases _ _ totalSize
          · exact .inl rfl

theorem parseRangeHeader_whole {range : Option Bytes} {totalSize start length : Nat}
    (h : parseRangeHeader range totalSize = (start, length, false)) : start = 0 ∧ length = 0 := by
  rcases parseRangeHeader_cases range totalSize with h0 | h1
  · cases h0.symm.trans h
    exact ⟨rfl, rfl⟩
  · rw [h] at h1
    cases h1

/-- **Range headers select what they ask for** exactly if the string is not misread: the selected
range is that of a single byte range, and every other header selects the whole object. -/
theorem ranges_selected_iff (range : Option Bytes) (totalSize : Nat) (h0 : 0 < totalSize)
    (h64 : totalSize < 2 ^ 64) :
    ((∀ start length, parseRangeHeader range totalSize = (start, length, true) ↔
        ∃ str, range.bind headerStr = some str ∧ SingleRange totalSize str.toList start length) ∧
      (∀ start length, parseRangeHeader range totalSize = (start, length, false) →
        start = 0 ∧ length = 0)) ↔
    ¬ ∃ str, range.bind headerStr = some str ∧ Misread totalSize str.toList := by
  cases hstr : range.bind headerStr with
  | none =>
    -- no header, or one that is not text
    have hparse : parseRangeHeader range totalSize = (0, 0, false) := by
      rw [parseRangeHeader, if_neg (by omega), hstr]
    refine iff_of_true ⟨fun start length => ?_, fun _ _ => parseRangeHeader_whole⟩ ?_
    · rw [hparse]
      simp
    · simp
  | some str =>
    have heq := parseRangeHeader_eq h0 h64 hstr
    simp only [heq, Option.some.injEq, exists_eq_left']
    refine ⟨fun h hmis => hmis.differs h.1, fun h => ?_⟩
    exact ⟨accepts_iff_singleRange h64 h, fun _ _ => parseRangeHeader_whole⟩

/-- Three bytes from the middle. -/
def middleRange : Bytes := Utf8.encode "bytes=2-4".toList

theorem ranges_selected_iff_middle :
    parseRangeHeader (some middleRange) 10 = (2, 3, true) ∧
    (((∀ start length, parseRangeHeader (some middleRange) 10 = (start, length, true) ↔
        ∃ str, (some middleRange).bind headerStr = some str ∧
          SingleRange 10 str.toList start length) ∧
      (∀ start length, parseRangeHeader (some middleRange) 10 = (start, length, false) →
        start = 0 ∧ length = 0)) ↔
    ¬ ∃ str, (some middleRange).bind headerStr = some str ∧ Misread 10 str.toList) :=
  ⟨by decide, ranges_selected_iff (some middleRange) 10 (by decide) (by decide)⟩

/-- Two ranges in one header. -/
def severalRanges : Bytes := Utf8.encode "bytes=0-1,3-4".toList

/-- The header of two ranges is answered with a single range, the whole object. -/
theorem several_ranges_selected :
    ¬ ∀ (range : Option Bytes) (totalSize : Nat), 0 < totalSize → totalSize < 2 ^ 64 →
      (∀ start length, parseRangeHeader range totalSize = (start, length, true) ↔
        ∃ str, range.bind headerStr = some str ∧ SingleRange totalSize str.toList start length) ∧
      (∀ start length, parseRangeHeader range totalSize = (start, length, false) →
        start = 0 ∧ length = 0) := by
  intro h
  have hstr : (some severalRanges).bind headerStr = some "bytes=0-1,3-4" := by decide
  have hend : ¬ ∃ n, Signed "1,3-4".toList n := fun ⟨n, hn⟩ => hn.not_mem (by decide)
  have hmis : Misread 10 "bytes=0-1,3-4".toList := .malformedEnd (a := ['0']) (b := "1,3-4".toList)
    (by decide) (by decide) (by decide) (by decide) fun n hn => absurd ⟨n, hn⟩ hend
  refine hmis.differs fun start length => ?_
  rw [← parseRangeHeader_eq (by decide) (by decide) hstr,
    (h (some severalRanges) 10 (by decide) (by decide)).1 start length, hstr]
  simp

end KaidaDB
