import Mathlib.Data.Option.Basic
import Mathlib.Data.List.Basic
import Mathlib.Tactic.IntervalCases

/-!
# Printers with their parsers

A `Codec α` prints values of `α` as text and reads them back, together with the law that makes
the text of a value self-delimiting: a printed value followed by anything that does not go on
with a digit reads back as the value and that rest. Codecs for decimal numbers, for JSON strings
and for bracketed lists, and combinators for records (`around`, `sep`, `imap`).

A reader of whole inputs is `Codec.exactly`, which also asks that printing gives the input back. It
reads back what was printed (`exactly_print`) and, of codecs that know where a value ends
(`SelfDelimiting`), no strict prefix of it (`exactly_start`) and no continuation of it
(`exactly_append`).
-/

/-- The text goes on without a digit. -/
def Ends : List Char → Bool
  | [] => true
  | c :: _ => !c.isDigit

/-- A separator: it starts with something else than a digit. -/
def Separates : List Char → Bool
  | [] => false
  | c :: _ => !c.isDigit

theorem ends_of_separates {p : List Char} (h : Separates p = true) (r : List Char) :
    Ends (p ++ r) = true := by
  cases p with
  | nil => cases h
  | cons c p => exact h

/-- No control characters, so no line breaks. -/
def Visible (s : List Char) : Prop := ∀ c ∈ s, 32 ≤ c.toNat

instance (s : List Char) : Decidable (Visible s) :=
  List.decidableBAll (fun c : Char => 32 ≤ c.toNat) s

theorem visible_append {s t : List Char} : Visible (s ++ t) ↔ Visible s ∧ Visible t := by
  simp only [Visible, List.mem_append, or_imp, forall_and]

theorem visible_cons {c : Char} {s : List Char} :
    Visible (c :: s) ↔ 32 ≤ c.toNat ∧ Visible s := by
  simp only [Visible, List.mem_cons, forall_eq_or_imp]

structure Codec (α : Type) where
  print : α → List Char
  parse : List Char → Option (α × List Char)
  law : ∀ a r, Ends r = true → parse (print a ++ r) = some (a, r)
  visible : ∀ a, Visible (print a)

namespace Codec

variable {α β : Type}

/-! ## Fixed text -/

/-- The rest of a text after `p`. -/
def strip : List Char → List Char → Option (List Char)
  | [], s => some s
  | _ :: _, [] => none
  | c :: p, d :: s => if c = d then strip p s else none

@[simp] theorem strip_append : ∀ p r : List Char, strip p (p ++ r) = some r
  | [], _ => rfl
  | c :: p, r => by rw [List.cons_append, strip, if_pos rfl, strip_append p r]

/-- The texts differ somewhere before the end of both. -/
def differ : List Char → List Char → Bool
  | c :: p, d :: q => c ≠ d || differ p q
  | _, _ => false

theorem strip_of_differ : ∀ {p q : List Char}, differ p q = true → ∀ r, strip p (q ++ r) = none
  | c :: p, d :: q, h, r => by
    rw [List.cons_append, strip]
    split
    · rename_i hcd
      exact strip_of_differ (by simpa [differ, hcd] using h) r
    · rfl

/-- A value between two fixed texts. -/
def around (pre post : List Char) (h : Separates post = true) (hv : Visible (pre ++ post))
    (c : Codec α) : Codec α where
  print a := pre ++ (c.print a ++ post)
  parse s := do
    let (a, s) ← c.parse (← strip pre s)
    return (a, ← strip post s)
  law a r _ := by
    rw [List.append_assoc, List.append_assoc]
    simp [c.law a _ (ends_of_separates h r)]
  visible a := by
    obtain ⟨hpre, hpost⟩ := visible_append.1 hv
    exact visible_append.2 ⟨hpre, visible_append.2 ⟨c.visible a, hpost⟩⟩

/-- A text that starts differently is not read. -/
theorem around_parse_none {pre post q : List Char} {h : Separates post = true}
    {hv : Visible (pre ++ post)} {c : Codec α} (hq : differ pre q = true) (r : List Char) :
    (c.around pre post h hv).parse (q ++ r) = none := by
  simp [around, strip_of_differ hq]

/-- Two values with a fixed text between them. -/
def sep (c : Codec α) (mid : List Char) (h : Separates mid = true) (hv : Visible mid)
    (d : Codec β) : Codec (α × β) where
  print p := c.print p.1 ++ (mid ++ d.print p.2)
  parse s := do
    let (a, s) ← c.parse s
    let (b, s) ← d.parse (← strip mid s)
    return ((a, b), s)
  law p r hr := by
    rw [List.append_assoc, List.append_assoc]
    simp [c.law p.1 _ (ends_of_separates h _), d.law p.2 r hr]
  visible p := visible_append.2 ⟨c.visible p.1, visible_append.2 ⟨hv, d.visible p.2⟩⟩

/-- The values of `α` as some of the values of `β`. -/
def imap (c : Codec β) (f : α → β) (g : β → Option α) (h : ∀ a, g (f a) = some a) :
    Codec α where
  print a := c.print (f a)
  parse s := do
    let (b, s) ← c.parse s
    return (← g b, s)
  law a r hr := by simp [c.law (f a) r hr, h a]
  visible a := c.visible (f a)

/-! ## Numbers -/

def digit (n : Nat) : Char := Char.ofNat (48 + n)

theorem digit_spec : ∀ n < 10, (digit n).isDigit = true ∧ (digit n).toNat - 48 = n := by decide

theorem digit_visible : ∀ n < 10, 32 ≤ (digit n).toNat := by decide

/-- The decimal digits of `n` in front of `acc`. -/
def digitsUpTo : Nat → Nat → List Char → List Char
  | 0, _, acc => acc
  | k + 1, n, acc =>
    if n < 10 then digit n :: acc else digitsUpTo k (n / 10) (digit (n % 10) :: acc)

def readDigits (n : Nat) : List Char → Nat × List Char
  | [] => (n, [])
  | c :: s => if c.isDigit then readDigits (10 * n + (c.toNat - 48)) s else (n, c :: s)

theorem readDigits_digit {d : Nat} (hd : d < 10) (n : Nat) (s : List Char) :
    readDigits n (digit d :: s) = readDigits (10 * n + d) s := by
  obtain ⟨h1, h2⟩ := digit_spec d hd
  rw [readDigits, if_pos h1, h2]

theorem readDigits_digitsUpTo : ∀ (k n : Nat) (acc r : List Char), n < k →
    readDigits 0 (digitsUpTo k n acc ++ r) = readDigits n (acc ++ r)
  | k + 1, n, acc, r, hk => by
    rw [digitsUpTo]
    split
    · rename_i hn
      rw [List.cons_append, readDigits_digit hn, Nat.mul_zero, Nat.zero_add]
    · rw [readDigits_digitsUpTo k (n / 10) _ r (by omega), List.cons_append,
        readDigits_digit (by omega), Nat.div_add_mod]

theorem digitsUpTo_head : ∀ (k n : Nat) (acc : List Char), n < k →
    ∃ d < 10, ∃ s, digitsUpTo k n acc = digit d :: s
  | k + 1, n, acc, hk => by
    rw [digitsUpTo]
    split
    · rename_i hn
      exact ⟨n, hn, acc, rfl⟩
    · exact digitsUpTo_head k (n / 10) _ (by omega)

theorem readDigits_ends (n : Nat) {r : List Char} (hr : Ends r = true) : readDigits n r = (n, r) := by
  cases r with
  | nil => rfl
  | cons c r => rw [readDigits, if_neg]; simpa [Ends] using hr

theorem digitsUpTo_visible : ∀ (k n : Nat) (acc : List Char), Visible acc →
    Visible (digitsUpTo k n acc)
  | 0, _, _, h => h
  | k + 1, n, acc, h => by
    rw [digitsUpTo]
    split
    · rename_i hn
      exact visible_cons.2 ⟨digit_visible n hn, h⟩
    · exact digitsUpTo_visible k (n / 10) _ (visible_cons.2 ⟨digit_visible _ (by omega), h⟩)

/-- Numbers in decimal. -/
def nat : Codec Nat where
  print n := digitsUpTo (n + 1) n []
  parse s := if Ends s then none else some (readDigits 0 s)
  law n r hr := by
    obtain ⟨d, hd, s, hs⟩ := digitsUpTo_head (n + 1) n [] (Nat.lt_succ_self n)
    have hread := readDigits_digitsUpTo (n + 1) n [] r (Nat.lt_succ_self n)
    rw [hread, List.nil_append, readDigits_ends n hr, hs, List.cons_append, Ends,
      (digit_spec d hd).1]
    rfl
  visible n := digitsUpTo_visible _ n [] (by simp [Visible])

/-- Integers in decimal. -/
def int : Codec Int where
  print
    | .ofNat n => nat.print n
    | .negSucc n => '-' :: nat.print (n + 1)
  parse s :=
    match strip ['-'] s with
    | some s => (nat.parse s).map fun p => (-(p.1 : Int), p.2)
    | none => (nat.parse s).map fun p => (p.1, p.2)
  law i r hr := by
    cases i with
    | ofNat n =>
      obtain ⟨d, hd, s, hs⟩ := digitsUpTo_head (n + 1) n [] (Nat.lt_succ_self n)
      have hne : '-' ≠ digit d := fun h => by
        have := (digit_spec d hd).1
        rw [← h] at this
        cases this
      have hstrip : strip ['-'] (nat.print n ++ r) = none := by
        show strip ['-'] (digitsUpTo (n + 1) n [] ++ r) = none
        rw [hs, List.cons_append, strip, if_neg hne]
      show (match strip ['-'] (nat.print n ++ r) with
        | some s => _
        | none => _) = _
      rw [hstrip]
      simp [nat.law n r hr]
    | negSucc n =>
      show Option.map _ (nat.parse (nat.print (n + 1) ++ r)) = _
      rw [nat.law (n + 1) r hr]
      rfl
  visible i := by
    cases i with
    | ofNat n => exact nat.visible n
    | negSucc n => exact visible_cons.2 ⟨by decide, nat.visible (n + 1)⟩

/-! ## Strings -/

def hexDigits : List Char := "0123456789abcdef".toList

/-- A character inside a JSON string. -/
def escape (c : Char) : List Char :=
  if c = '"' then ['\\', '"']
  else if c = '\\' then ['\\', '\\']
  else if c.toNat < 32 then
    if c = '\n' then ['\\', 'n']
    else if c = '\r' then ['\\', 'r']
    else if c = '\t' then ['\\', 't']
    else if c.toNat = 8 then ['\\', 'b']
    else if c.toNat = 12 then ['\\', 'f']
    else ['\\', 'u', '0', '0', hexDigits.getD (c.toNat / 16) '0', hexDigits.getD (c.toNat % 16) '0']
  else [c]

/-- The character a short escape stands for. -/
def unescape (c : Char) : Option Char :=
  if c = '"' then some '"'
  else if c = '\\' then some '\\'
  else if c = 'n' then some '\n'
  else if c = 'r' then some '\r'
  else if c = 't' then some '\t'
  else if c = 'b' then some (Char.ofNat 8)
  else if c = 'f' then some (Char.ofNat 12)
  else none

/-- A string up to its closing quote. -/
def readString : List Char → Option (List Char × List Char)
  | [] => none
  | ['\\'] => none
  | '\\' :: 'u' :: '0' :: '0' :: h :: l :: s =>
    (readString s).map fun p =>
      (Char.ofNat (16 * hexDigits.idxOf h + hexDigits.idxOf l) :: p.1, p.2)
  | '\\' :: c :: s =>
    match unescape c with
    | some d => (readString s).map fun p => (d :: p.1, p.2)
    | none => none
  | c :: s =>
    if c = '"' then some ([], s)
    else if c.toNat < 32 then none
    else (readString s).map fun p => (c :: p.1, p.2)

theorem readString_cons {c : Char} (h : c ≠ '\\') (s : List Char) :
    readString (c :: s) = if c = '"' then some ([], s)
      else if c.toNat < 32 then none
      else (readString s).map fun p => (c :: p.1, p.2) := by
  rw [readString] <;> intros <;> simp_all

theorem readString_control (s : List Char) : ∀ n < 32,
    readString (escape (Char.ofNat n) ++ s)
      = (readString s).map fun p => (Char.ofNat n :: p.1, p.2) := by
  intro n hn
  interval_cases n <;> rfl

theorem readString_escape (c : Char) (s : List Char) :
    readString (escape c ++ s) = (readString s).map fun p => (c :: p.1, p.2) := by
  by_cases hn : c.toNat < 32
  · have := readString_control s c.toNat hn
    rwa [Char.ofNat_toNat] at this
  · unfold escape
    split_ifs with h1 h2
    · subst h1; rfl
    · subst h2; rfl
    · rw [List.singleton_append, readString_cons h2, if_neg h1, if_neg hn]

theorem readString_print : ∀ (cs r : List Char),
    readString (cs.flatMap escape ++ '"' :: r) = some (cs, r)
  | [], _ => rfl
  | c :: cs, r => by
    rw [List.flatMap_cons, List.append_assoc, readString_escape, readString_print cs r]
    rfl

theorem hexDigits_visible (i : Nat) : 32 ≤ (hexDigits.getD i '0').toNat := by
  rw [List.getD_eq_getElem?_getD]
  cases h : hexDigits[i]? with
  | none => decide
  | some c =>
    have hall : Visible hexDigits := by decide
    exact hall c (List.mem_of_getElem? h)

theorem escape_visible (c : Char) : Visible (escape c) := by
  have hhex := hexDigits_visible
  unfold escape
  split_ifs <;> simp_all [Visible]

/-- JSON strings. -/
def string : Codec String where
  print t := '"' :: (t.toList.flatMap escape ++ ['"'])
  parse s := do
    let (cs, s) ← readString (← strip ['"'] s)
    return (String.ofList cs, s)
  law t r _ := by
    simp [strip, readString_print]
  visible t := by
    refine visible_cons.2 ⟨by decide, visible_append.2 ⟨fun x hx => ?_, by decide⟩⟩
    obtain ⟨c, -, hc⟩ := List.mem_flatMap.1 hx
    exact escape_visible c x hc

/-! ## Lists -/

/-- The printed elements with commas between them and the closing bracket. -/
def printRest (c : Codec α) (cl : Char) : α → List α → List Char
  | a, [] => c.print a ++ [cl]
  | a, b :: l => c.print a ++ (',' :: printRest c cl b l)

/-- Elements up to the closing bracket, at most as many as the first argument. -/
def readRest (c : Codec α) (cl : Char) : Nat → List Char → Option (List α × List Char)
  | 0, _ => none
  | k + 1, s =>
    match c.parse s with
    | some (a, d :: s) =>
      if d = ',' then (readRest c cl k s).map fun p => (a :: p.1, p.2)
      else if d = cl then some ([a], s) else none
    | _ => none

theorem readRest_printRest (c : Codec α) {cl : Char} (hcl : cl ≠ ',')
    (hd : cl.isDigit = false) (r : List Char) :
    ∀ (k : Nat) (a : α) (l : List α), l.length < k →
      readRest c cl k (printRest c cl a l ++ r) = some (a :: l, r)
  | k + 1, a, [], _ => by
    rw [printRest, List.append_assoc, readRest, c.law a _ (by simp [Ends, hd])]
    simp [hcl]
  | k + 1, a, b :: l, hk => by
    rw [printRest, List.append_assoc, readRest, c.law a _ (by simp [Ends])]
    simp only [List.cons_append, if_true]
    rw [readRest_printRest c hcl hd r k b l (by simpa using hk)]
    rfl

theorem length_le_printRest (c : Codec α) (cl : Char) :
    ∀ (a : α) (l : List α), l.length < (printRest c cl a l).length
  | a, [] => by simp [printRest]
  | a, b :: l => by
    have := length_le_printRest c cl b l
    simp only [printRest, List.length_append, List.length_cons]
    omega

theorem printRest_visible (c : Codec α) {cl : Char} (hcl : 32 ≤ cl.toNat) :
    ∀ (a : α) (l : List α), Visible (printRest c cl a l)
  | a, [] => visible_append.2 ⟨c.visible a, by simpa [Visible] using hcl⟩
  | a, b :: l => visible_append.2 ⟨c.visible a, visible_cons.2
      ⟨by decide, printRest_visible c hcl b l⟩⟩

/-- Lists in brackets; no element starts like the closing bracket. -/
def list (c : Codec α) (op cl : Char) (hcl : cl ≠ ',') (hd : cl.isDigit = false)
    (hv : Visible [op, cl]) (hc : ∀ a, ∃ x s, c.print a = x :: s ∧ x ≠ cl) : Codec (List α) where
  print
    | [] => [op, cl]
    | a :: l => op :: printRest c cl a l
  parse s := do
    let s ← strip [op] s
    match strip [cl] s with
    | some s => return ([], s)
    | none => readRest c cl s.length s
  law l r _ := by
    cases l with
    | nil => simp [strip]
    | cons a l =>
      have hlen : l.length < (printRest c cl a l ++ r).length :=
        Nat.lt_of_lt_of_le (length_le_printRest c cl a l) (by simp)
      have hread := readRest_printRest c hcl hd r _ a l hlen
      have hstrip : strip [cl] (printRest c cl a l ++ r) = none := by
        obtain ⟨x, s, hx, hne⟩ := hc a
        cases l <;> simp [printRest, hx, strip, Ne.symm hne]
      simp only [strip, List.cons_append, if_true, Option.bind_eq_bind, Option.bind_some, hstrip,
        hread]
  visible l := by
    obtain ⟨hop, hcl⟩ := visible_cons.1 hv
    cases l with
    | nil => exact hv
    | cons a l => exact visible_cons.2 ⟨hop, printRest_visible c (visible_cons.1 hcl).1 a l⟩

/-! ## Reading whole inputs -/

/-- The value whose printed form is the whole input. -/
def exactly (c : Codec α) (s : List Char) : Option α :=
  match c.parse s with
  | some (a, _) => if c.print a = s then some a else none
  | none => none

theorem print_of_exactly {c : Codec α} {s : List Char} {a : α} (h : c.exactly s = some a) :
    c.print a = s := by
  unfold exactly at h
  split at h
  · split at h
    · rename_i hs
      cases h
      exact hs
    · cases h
  · cases h

/-- Whatever follows a value, reading stops where the value ends. -/
def SelfDelimiting (c : Codec α) : Prop := ∀ a r, c.parse (c.print a ++ r) = some (a, r)

theorem selfDelimiting_around {c : Codec α} {pre post : List Char} {h : Separates post = true}
    {hv : Visible (pre ++ post)} : (c.around pre post h hv).SelfDelimiting := by
  intro a r
  simp [around, c.law a _ (ends_of_separates h r)]

section
variable {c : Codec α} (hc : c.SelfDelimiting)
include hc

theorem exactly_print (a : α) : c.exactly (c.print a) = some a := by
  have h := hc a []
  rw [List.append_nil] at h
  rw [exactly, h]
  exact if_pos rfl

/-- No value's text continues another's. -/
theorem eq_nil_of_print_append {a b : α} {r : List Char} (h : c.print a = c.print b ++ r) :
    r = [] := by
  have h1 := hc b r
  have h2 := hc a []
  rw [List.append_nil, h, h1, Option.some.injEq, Prod.mk.injEq] at h2
  exact h2.2

theorem exactly_start {a : α} {p : List Char} (h : p <+: c.print a) (hne : p ≠ c.print a) :
    c.exactly p = none := by
  obtain ⟨r, hr⟩ := h
  cases hp : c.exactly p with
  | none => rfl
  | some b =>
    rw [← print_of_exactly hp] at hr hne
    have := eq_nil_of_print_append hc hr.symm
    subst this
    exact absurd (by simpa using hr) hne

theorem exactly_append (a : α) {r : List Char} (hr : r ≠ []) : c.exactly (c.print a ++ r) = none := by
  cases hp : c.exactly (c.print a ++ r) with
  | none => rfl
  | some b => exact absurd (eq_nil_of_print_append hc (print_of_exactly hp)) hr

end

end Codec
