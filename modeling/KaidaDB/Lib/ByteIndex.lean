import Mathlib.Data.String.Basic

/-!
# Texts with places counted in bytes

A text is the list of its characters, and a place in it is the number of bytes before it, as in a `str`
of Rust. Places within a character are no places, and the functions of `str` panic there: here they
return `none`. A text can be split exactly at its boundaries (`splitAt?_eq_some`), and the operations
are described on texts that are put together there (`insert?_append`, `drain?_append`,
`slice?_append`). Characters are found by their number with `charIndices`.
-/

namespace ByteIndex

open String

theorem utf8Len_singleton (c : Char) : utf8Len [c] = c.utf8Size := Nat.zero_add _

/-- A place before a character is not the end. -/
theorem lt_utf8Len (a : List Char) (c : Char) (b : List Char) : utf8Len a < utf8Len (a ++ c :: b) := by
  have hpos := c.utf8Size_pos
  rw [utf8Len_append, utf8Len_cons]
  omega

theorem utf8Len_concat_pos (a : List Char) (c : Char) : 0 < utf8Len (a ++ [c]) :=
  Nat.zero_lt_of_lt (lt_utf8Len a c [])

/-- `split_at`. -/
def splitAt? : List Char → Nat → Option (List Char × List Char)
  | l, 0 => some ([], l)
  | [], _ + 1 => none
  | c :: l, n + 1 =>
    if c.utf8Size ≤ n + 1 then (splitAt? l (n + 1 - c.utf8Size)).map fun p => (c :: p.1, p.2)
    else none

theorem splitAt?_zero (l : List Char) : splitAt? l 0 = some ([], l) := by
  cases l <;> rfl

theorem splitAt?_eq_some {l a b : List Char} {n : Nat} :
    splitAt? l n = some (a, b) ↔ l = a ++ b ∧ utf8Len a = n := by
  induction l generalizing n a with
  | nil =>
    cases n with
    | zero =>
      rw [splitAt?_zero, Option.some.injEq, Prod.mk.injEq, utf8Len_eq_zero, List.nil_eq_append_iff]
      exact ⟨fun h => ⟨⟨h.1.symm, h.2.symm⟩, h.1.symm⟩, fun h => ⟨h.2.symm, h.1.2.symm⟩⟩
    | succ n =>
      refine iff_of_false nofun ?_
      rintro ⟨hnil, hlen⟩
      rw [(List.append_eq_nil_iff.1 hnil.symm).1] at hlen
      cases hlen
  | cons c l ih =>
    have hpos := c.utf8Size_pos
    cases n with
    | zero =>
      rw [splitAt?_zero, Option.some.injEq, Prod.mk.injEq, utf8Len_eq_zero]
      constructor
      · rintro ⟨rfl, rfl⟩
        exact ⟨rfl, rfl⟩
      · rintro ⟨heq, rfl⟩
        exact ⟨rfl, heq⟩
    | succ n =>
      rw [splitAt?]
      split_ifs with hle
      · simp only [Option.map_eq_some_iff, Prod.exists, Prod.mk.injEq]
        constructor
        · rintro ⟨a', b', hsplit, rfl, rfl⟩
          obtain ⟨rfl, hlen⟩ := ih.1 hsplit
          refine ⟨rfl, ?_⟩
          rw [utf8Len_cons]
          omega
        · rintro ⟨heq, hlen⟩
          cases a with
          | nil => cases hlen
          | cons d a =>
            obtain ⟨rfl, rfl⟩ := List.cons.inj heq
            rw [utf8Len_cons] at hlen
            exact ⟨a, b, ih.2 ⟨rfl, by omega⟩, rfl, rfl⟩
      · refine iff_of_false nofun ?_
        rintro ⟨heq, hlen⟩
        cases a with
        | nil => cases hlen
        | cons d a =>
          obtain ⟨rfl, rfl⟩ := List.cons.inj heq
          rw [utf8Len_cons] at hlen
          omega

theorem splitAt?_append (a b : List Char) : splitAt? (a ++ b) (utf8Len a) = some (a, b) :=
  splitAt?_eq_some.2 ⟨rfl, rfl⟩

/-! ## Boundaries -/

/-- `is_char_boundary`. -/
def IsBoundary (l : List Char) (n : Nat) : Prop := ∃ a b, l = a ++ b ∧ utf8Len a = n

theorem isBoundary_iff {l : List Char} {n : Nat} : IsBoundary l n ↔ (splitAt? l n).isSome := by
  rw [Option.isSome_iff_exists, Prod.exists]
  simp only [splitAt?_eq_some, IsBoundary]

instance (l : List Char) (n : Nat) : Decidable (IsBoundary l n) :=
  decidable_of_iff _ isBoundary_iff.symm

theorem IsBoundary.le {l : List Char} {n : Nat} (h : IsBoundary l n) : n ≤ utf8Len l := by
  obtain ⟨a, b, rfl, rfl⟩ := h
  rw [utf8Len_append]
  exact Nat.le_add_right _ _

theorem isBoundary_end (l : List Char) : IsBoundary l (utf8Len l) := ⟨l, [], (List.append_nil l).symm, rfl⟩

theorem isBoundary_append (a b : List Char) : IsBoundary (a ++ b) (utf8Len a) := ⟨a, b, rfl, rfl⟩

/-! ## Pieces -/

/-- `&text[m..n]`. -/
def slice? (l : List Char) (m n : Nat) : Option (List Char) := do
  let (front, _) ← splitAt? l n
  let (_, piece) ← splitAt? front m
  return piece

/-- `String::insert`. -/
def insert? (l : List Char) (n : Nat) (c : Char) : Option (List Char) := do
  let (a, b) ← splitAt? l n
  return a ++ c :: b

/-- `String::drain` of `m..n`. -/
def drain? (l : List Char) (m n : Nat) : Option (List Char) := do
  let (front, b) ← splitAt? l n
  let (a, _) ← splitAt? front m
  return a ++ b

section
variable (a piece b : List Char)

theorem slice?_append :
    slice? (a ++ piece ++ b) (utf8Len a) (utf8Len (a ++ piece)) = some piece := by
  rw [slice?, splitAt?_append, Option.bind_eq_bind, Option.bind_some]
  dsimp only
  rw [splitAt?_append]
  rfl

theorem insert?_append (c : Char) : insert? (a ++ b) (utf8Len a) c = some (a ++ c :: b) := by
  rw [insert?, splitAt?_append]
  rfl

theorem drain?_append :
    drain? (a ++ piece ++ b) (utf8Len a) (utf8Len (a ++ piece)) = some (a ++ b) := by
  rw [drain?, splitAt?_append, Option.bind_eq_bind, Option.bind_some]
  dsimp only
  rw [splitAt?_append]
  rfl

end

/-! ## Characters -/

/-- The characters, each with its place, where the first one is at `n`. -/
def charIndicesFrom : Nat → List Char → List (Nat × Char)
  | _, [] => []
  | n, c :: l => (n, c) :: charIndicesFrom (n + c.utf8Size) l

/-- `char_indices`. -/
def charIndices (l : List Char) : List (Nat × Char) := charIndicesFrom 0 l

/-- The place of character number `i`: `char_indices().nth(i).map(|(i, _)| i)`. -/
def nthIndex (l : List Char) (i : Nat) : Option Nat := (charIndices l)[i]?.map Prod.fst

/-- The place of the last character: `char_indices().next_back().map(|(i, _)| i)`. -/
def lastIndex (l : List Char) : Option Nat := (charIndices l).getLast?.map Prod.fst

theorem charIndicesFrom_append (a b : List Char) : ∀ n, charIndicesFrom n (a ++ b)
    = charIndicesFrom n a ++ charIndicesFrom (n + utf8Len a) b := by
  induction a with
  | nil => exact fun _ => rfl
  | cons c a ih =>
    intro n
    rw [List.cons_append, charIndicesFrom, charIndicesFrom, ih, utf8Len_cons, List.cons_append,
      Nat.add_assoc, Nat.add_comm c.utf8Size]

theorem length_charIndicesFrom (l : List Char) : ∀ n, (charIndicesFrom n l).length = l.length := by
  induction l with
  | nil => exact fun _ => rfl
  | cons c l ih => exact fun n => congrArg (· + 1) (ih _)

theorem nthIndex_append (a : List Char) (c : Char) (b : List Char) :
    nthIndex (a ++ c :: b) a.length = some (utf8Len a) := by
  have hlen := length_charIndicesFrom a 0
  rw [nthIndex, charIndices, charIndicesFrom_append, List.getElem?_append_right (Nat.le_of_eq hlen), hlen,
    Nat.sub_self, charIndicesFrom, List.getElem?_cons_zero, Nat.zero_add]
  rfl

theorem nthIndex_of_lt {l : List Char} {i : Nat} (h : i < l.length) :
    nthIndex l i = some (utf8Len (l.take i)) := by
  have hnth := nthIndex_append (l.take i) l[i] (l.drop (i + 1))
  rwa [← List.drop_eq_getElem_cons h, List.take_append_drop, List.length_take_of_le (Nat.le_of_lt h)]
    at hnth

theorem nthIndex_none {l : List Char} {i : Nat} (h : l.length ≤ i) : nthIndex l i = none := by
  rw [nthIndex, List.getElem?_eq_none]
  · rfl
  · rw [charIndices, length_charIndicesFrom]
    exact h

/-- A place behind the last character is the end. -/
theorem nthIndex_getD (l : List Char) (i : Nat) :
    (nthIndex l i).getD (utf8Len l) = utf8Len (l.take i) := by
  rcases Nat.lt_or_ge i l.length with hlt | hge
  · rw [nthIndex_of_lt hlt]
    rfl
  · rw [nthIndex_none hge, List.take_of_length_le hge]
    rfl

/-- The characters from number `i` up to number `j`. -/
theorem slice?_take {l : List Char} {i j : Nat} (hij : i ≤ j) :
    slice? l (utf8Len (l.take i)) (utf8Len (l.take j)) = some ((l.take j).drop i) := by
  have hfront : l.take i ++ (l.take j).drop i = l.take j := by
    conv_rhs => rw [← List.take_append_drop i (l.take j), List.take_take, Nat.min_eq_left hij]
  have h := slice?_append (l.take i) ((l.take j).drop i) (l.drop j)
  rwa [hfront, List.take_append_drop] at h

theorem lastIndex_append (a : List Char) (c : Char) : lastIndex (a ++ [c]) = some (utf8Len a) := by
  rw [lastIndex, charIndices, charIndicesFrom_append, Nat.zero_add]
  simp [charIndicesFrom]

end ByteIndex
