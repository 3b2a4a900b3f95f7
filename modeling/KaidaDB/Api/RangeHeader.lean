import KaidaDB.Api.Upload
import KaidaDB.Lib.Decimal

/-!
# The Range header

`parse_range_header`: the offset and the length of the range a request asks for, and whether it asks for
one. `SingleRange` says which strings ask for a range and for which bytes, after the forms that the
documentation shows.
-/

namespace KaidaDB

open Decimal

/-- `str::splitn(2, c)`. -/
def splitn2 (c : Char) (s : List Char) : List (List Char) :=
  if c ∈ s then [s.takeWhile (· ≠ c), (s.dropWhile (· ≠ c)).tail] else [s]

/-- `str::parse::<u64>`. -/
def parseU64 (s : List Char) : Option Nat := Decimal.parse (2 ^ 64) s

/-- A suffix range: the last bytes. -/
def suffixRange (suffix : List Char) (totalSize : Nat) : Nat × Nat × Bool :=
  match parseU64 suffix with
  | some n =>
    if n = 0 then (0, 0, false)
    else
      let start := totalSize - n
      (start, totalSize - start, true)
  | none => (0, 0, false)

/-- The last byte of a range: that of the object unless `second` gives an earlier one. -/
def lastByte (totalSize : Nat) (second : List Char) : Nat :=
  if second = [] then totalSize - 1
  else
    match parseU64 second with
    | some e => min e (totalSize - 1)
    | none => totalSize - 1

/-- A range with a start. -/
def boundedRange (first second : List Char) (totalSize : Nat) : Nat × Nat × Bool :=
  match parseU64 first with
  | none => (0, 0, false)
  | some start =>
    if totalSize ≤ start then (0, 0, false)
    else
      let stop := lastByte totalSize second
      if stop < start then (0, 0, false)
      else (start, stop - start + 1, true)

/-- `parse_range_header`, on the value of the first Range header. -/
def parseRangeHeader (range : Option Bytes) (totalSize : Nat) : Nat × Nat × Bool :=
  if totalSize = 0 then (0, 0, false)
  else
    match range.bind headerStr with
    | none => (0, 0, false)
    | some rangeStr =>
      match rangeStr.toList.dropPrefix? "bytes=".toList with
      | none => (0, 0, false)
      | some bytesRange =>
        match bytesRange.dropPrefix? ['-'] with
        | some suffix => suffixRange suffix totalSize
        | none =>
          match splitn2 '-' bytesRange with
          | [first, second] => boundedRange first second totalSize
          | _ => (0, 0, false)

/-! ## What a Range header asks for -/

/-- `bytes=A-B`, `bytes=A-` and `bytes=-N` with the first byte and the number of bytes they select. -/
inductive SingleRange (totalSize : Nat) : List Char → Nat → Nat → Prop
  | bounds {a b : List Char} (ha : IsNumber a) (hb : IsNumber b) (hle : value a ≤ value b)
      (hlt : value a < totalSize) :
      SingleRange totalSize ("bytes=".toList ++ a ++ '-' :: b) (value a)
        (min (value b) (totalSize - 1) + 1 - value a)
  | start {a : List Char} (ha : IsNumber a) (hlt : value a < totalSize) :
      SingleRange totalSize ("bytes=".toList ++ a ++ ['-']) (value a) (totalSize - value a)
  | suffix {n : List Char} (hn : IsNumber n) (hpos : 0 < value n) :
      SingleRange totalSize ("bytes=-".toList ++ n) (totalSize - min (value n) totalSize)
        (min (value n) totalSize)

/-- The strings that are not taken for what they are: a sign before a number is accepted, and so is
any text for the last byte; a suffix that is longer than a `u64` is not. -/
inductive Misread (totalSize : Nat) : List Char → Prop
  | signedSuffix {n : List Char} (hn : IsNumber n) (hpos : 0 < value n) (hlt : value n < 2 ^ 64) :
      Misread totalSize ("bytes=-".toList ++ '+' :: n)
  | longSuffix {n : List Char} (hn : IsNumber n) (hlong : 2 ^ 64 ≤ value n) :
      Misread totalSize ("bytes=-".toList ++ n)
  | signedStart {a b : List Char} (ha : IsNumber a) (hlt : value a < totalSize)
      (hb : ∀ n, Signed b n → value a ≤ n) :
      Misread totalSize ("bytes=".toList ++ '+' :: a ++ '-' :: b)
  | malformedEnd {a b : List Char} (ha : IsNumber a) (hlt : value a < totalSize)
      (hnil : b ≠ []) (hnum : ¬ IsNumber b) (hb : ∀ n, Signed b n → value a ≤ n) :
      Misread totalSize ("bytes=".toList ++ a ++ '-' :: b)

end KaidaDB
