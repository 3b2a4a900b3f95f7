import Mathlib.Algebra.Group.Nat.Defs
import Mathlib.Data.List.Basic

/-!
# Reading bounded decimal numbers

`Decimal.parse bound` reads an unsigned number the way `str::parse` does for a type with values below
`bound`: an optional `+`, then digit after digit, giving up at any other character and as soon as the
number does not fit. It accepts the digit strings with an optional `+` (`Signed`) whose value is below
the bound, and no other string (`parse_eq_some`).
-/

namespace Decimal

/-- A non-empty string of digits. -/
def IsNumber (s : List Char) : Prop := s ≠ [] ∧ ∀ c ∈ s, c.isDigit = true

instance : DecidablePred IsNumber := fun s =>
  @instDecidableAnd _ _ _ (List.decidableBAll (fun c : Char => c.isDigit = true) s)

def digitValue (c : Char) : Nat := c.toNat - '0'.toNat

/-- The value of digits that follow those of `n`. -/
def valueFrom (n : Nat) (s : List Char) : Nat := s.foldl (fun n c => 10 * n + digitValue c) n

def value (s : List Char) : Nat := valueFrom 0 s

/-- The loop over the digits, with checked multiplication and addition. -/
def parseDigits (bound : Nat) : Nat → List Char → Option Nat
  | n, [] => some n
  | n, c :: s =>
    if bound ≤ 10 * n then none
    else if c.isDigit = false then none
    else if bound ≤ 10 * n + digitValue c then none
    else parseDigits bound (10 * n + digitValue c) s

def parse (bound : Nat) (s : List Char) : Option Nat :=
  let digits := if s.head? = some '+' then s.tail else s
  if digits = [] then none else parseDigits bound 0 digits

/-- `s` is `n` in decimal, perhaps behind a `+`. -/
def Signed (s : List Char) (n : Nat) : Prop :=
  ∃ ds, IsNumber ds ∧ value ds = n ∧ (s = ds ∨ s = '+' :: ds)

theorem IsNumber.signed {s : List Char} (h : IsNumber s) : Signed s (value s) :=
  ⟨s, h, rfl, .inl rfl⟩

theorem IsNumber.not_mem {s : List Char} (h : IsNumber s) {c : Char} (hc : c.isDigit = false) :
    c ∉ s := fun hmem => by
  rw [h.2 c hmem] at hc
  cases hc

theorem not_isNumber_plus (s : List Char) : ¬ IsNumber ('+' :: s) := fun h =>
  h.not_mem (c := '+') rfl List.mem_cons_self

theorem Signed.not_mem {s : List Char} {n : Nat} (h : Signed s n) : '-' ∉ s := by
  obtain ⟨ds, hds, -, rfl | rfl⟩ := h
  · exact hds.not_mem rfl
  · simp [hds.not_mem (c := '-') rfl]

theorem Signed.ne_nil {s : List Char} {n : Nat} (h : Signed s n) : s ≠ [] := by
  obtain ⟨ds, hds, -, rfl | rfl⟩ := h
  · exact hds.1
  · exact List.cons_ne_nil _ _

/-- What stands behind an optional `+` is determined. -/
theorem Signed.unsigned {s : List Char} {n : Nat} (h : Signed s n) :
    IsNumber (if s.head? = some '+' then s.tail else s) ∧
      value (if s.head? = some '+' then s.tail else s) = n := by
  obtain ⟨ds, hds, hn, rfl | rfl⟩ := h
  · have hhead : s.head? ≠ some '+' := fun hhead =>
      hds.not_mem (c := '+') rfl (List.mem_of_head? hhead)
    rw [if_neg hhead]
    exact ⟨hds, hn⟩
  · exact ⟨hds, hn⟩

theorem Signed.inj {s : List Char} {n n' : Nat} (h : Signed s n) (h' : Signed s n') : n = n' :=
  h.unsigned.2.symm.trans h'.unsigned.2

theorem IsNumber.value_eq {s : List Char} {n : Nat} (h : IsNumber s) (hs : Signed s n) :
    value s = n := h.signed.inj hs

/-- What a printed number consists of. -/
theorem digit_of_mem_toString {n : Nat} {c : Char} (hc : c ∈ (toString n).toList) :
    48 ≤ c.toNat ∧ c.toNat ≤ 57 := by
  rw [Nat.toString_eq_repr, Nat.toList_repr] at hc
  have hdigit := Nat.isDigit_of_mem_toDigits (by decide) (by decide) hc
  rw [Char.isDigit, Bool.and_eq_true, decide_eq_true_eq, decide_eq_true_eq] at hdigit
  exact hdigit

theorem le_valueFrom (n : Nat) (s : List Char) : n ≤ valueFrom n s := by
  induction s generalizing n with
  | nil => exact Nat.le_refl n
  | cons c s ih => exact Nat.le_trans (by omega) (ih (10 * n + digitValue c))

theorem parseDigits_eq_some {bound n m : Nat} {s : List Char} (hn : n < bound) :
    parseDigits bound n s = some m ↔
      (∀ c ∈ s, c.isDigit = true) ∧ valueFrom n s = m ∧ m < bound := by
  induction s generalizing n with
  | nil =>
    simp only [parseDigits, Option.some.injEq, List.not_mem_nil, false_implies, implies_true,
      true_and, valueFrom, List.foldl_nil]
    exact ⟨fun h => ⟨h, h ▸ hn⟩, fun h => h.1⟩
  | cons c s ih =>
    have hle := le_valueFrom (10 * n + digitValue c) s
    have hcons : valueFrom n (c :: s) = valueFrom (10 * n + digitValue c) s := rfl
    simp only [parseDigits, List.forall_mem_cons, hcons]
    split_ifs with h1 h2 h3
    · refine ⟨(fun h => by cases h), fun h => ?_⟩
      omega
    · refine ⟨(fun h => by cases h), fun h => ?_⟩
      rw [h2] at h
      cases h.1.1
    · refine ⟨(fun h => by cases h), fun h => ?_⟩
      omega
    · rw [ih (by omega)]
      simp [Bool.not_eq_false _ ▸ h2]

theorem parse_eq_some {bound n : Nat} {s : List Char} (hb : 0 < bound) :
    parse bound s = some n ↔ Signed s n ∧ n < bound := by
  unfold parse
  refine ⟨fun h => ?_, fun ⟨h, hlt⟩ => ?_⟩
  · dsimp only at h
    split_ifs at h with hplus hnil hnil
    · obtain ⟨hdig, hval, hlt⟩ := (parseDigits_eq_some hb).1 h
      refine ⟨⟨s.tail, ⟨hnil, hdig⟩, hval, .inr ?_⟩, hlt⟩
      exact List.eq_cons_of_mem_head? hplus
    · obtain ⟨hdig, hval, hlt⟩ := (parseDigits_eq_some hb).1 h
      exact ⟨⟨s, ⟨hnil, hdig⟩, hval, .inl rfl⟩, hlt⟩
  · obtain ⟨hnum, hval⟩ := h.unsigned
    dsimp only
    rw [if_neg hnum.1]
    exact (parseDigits_eq_some hb).2 ⟨hnum.2, hval, hlt⟩

theorem parse_eq_none {bound : Nat} {s : List Char} (hb : 0 < bound) :
    parse bound s = none ↔ ∀ n, Signed s n → bound ≤ n := by
  rw [Option.eq_none_iff_forall_ne_some]
  refine ⟨fun h n hs => Nat.le_of_not_lt fun hlt => h n ((parse_eq_some hb).2 ⟨hs, hlt⟩),
    fun h n hn => ?_⟩
  obtain ⟨hs, hlt⟩ := (parse_eq_some hb).1 hn
  exact absurd (h n hs) (by omega)

example : parse 256 "+250".toList = some 250 ∧ parse 256 "256".toList = none := by decide

end Decimal
