import KaidaDB.Lib.Utf8

/-!
# Lines of a byte file

A buffered reader hands out a file line by line: `rawLines` are the pieces up to and including
each newline byte, `readLine` the text of one piece without its line ending (`\n`, or `\r\n`), if
the piece is valid UTF-8. A file of terminated texts reads back text by text, whatever follows
(`rawLines_records`, `readLine_record`); a last piece without a newline is a line as well
(`rawLines_tail`, `readLine_tail`).
-/

namespace Lines

/-- The newline byte. -/
def nl : UInt8 := 10

/-- The pieces of a file, each up to and including its newline. The last may lack one. -/
def rawLines : List UInt8 → List (List UInt8)
  | [] => []
  | b :: bs =>
    if b = nl then [b] :: rawLines bs
    else
      match rawLines bs with
      | [] => [[b]]
      | l :: ls => (b :: l) :: ls

/-- A line without its ending. -/
def chomp (l : List Char) : List Char :=
  match l.reverse with
  | '\n' :: '\r' :: r => r.reverse
  | '\n' :: r => r.reverse
  | _ => l

/-- The text of a piece, `none` where it is not valid UTF-8. -/
def readLine (raw : List UInt8) : Option (List Char) := (Utf8.decode raw).map chomp

/-- A text written with its newline. -/
def record (t : List Char) : List UInt8 := Utf8.encode t ++ [nl]

/-- A file of terminated texts. -/
def records (ts : List (List Char)) : List UInt8 := ts.flatMap record

@[simp] theorem records_nil : records [] = [] := rfl

@[simp] theorem records_cons (t : List Char) (ts : List (List Char)) :
    records (t :: ts) = record t ++ records ts := rfl

theorem records_append (ts us : List (List Char)) :
    records (ts ++ us) = records ts ++ records us := List.flatMap_append

/-! ## Pieces -/

theorem rawLines_cons_nl (l rest : List UInt8) (h : nl ∉ l) :
    rawLines (l ++ nl :: rest) = (l ++ [nl]) :: rawLines rest := by
  induction l with
  | nil => simp [rawLines]
  | cons b l ih =>
    simp only [List.mem_cons, not_or] at h
    simp only [List.cons_append, rawLines, if_neg (Ne.symm h.1), ih h.2]

/-- A last piece without newline. -/
theorem rawLines_tail {l : List UInt8} (h : nl ∉ l) (hne : l ≠ []) : rawLines l = [l] := by
  induction l with
  | nil => exact absurd rfl hne
  | cons b l ih =>
    simp only [List.mem_cons, not_or] at h
    cases l with
    | nil => simp [rawLines, Ne.symm h.1]
    | cons c l => rw [rawLines, if_neg (Ne.symm h.1), ih h.2 (by simp)]

theorem nl_not_mem_encode {t : List Char} (h : '\n' ∉ t) : nl ∉ Utf8.encode t := fun hm =>
  h ((Utf8.mem_encode_ascii (a := '\n') (by decide)).1 hm)

/-- Terminated texts come first, each as its own piece. -/
theorem rawLines_records {ts : List (List Char)} (h : ∀ t ∈ ts, '\n' ∉ t) (rest : List UInt8) :
    rawLines (records ts ++ rest) = ts.map record ++ rawLines rest := by
  induction ts with
  | nil => rfl
  | cons t ts ih =>
    have ht := nl_not_mem_encode (h t (by simp))
    have ih := ih fun u hu => h u (List.mem_cons_of_mem _ hu)
    rw [records_cons, List.append_assoc, record, List.append_assoc, List.singleton_append,
      rawLines_cons_nl _ _ ht, ih]
    rfl

/-! ## Texts -/

theorem chomp_eq_self {t : List Char} (h : '\n' ∉ t) : chomp t = t := by
  unfold chomp
  split
  · rename_i r hr
    exact absurd (List.mem_reverse.1 (hr ▸ List.mem_cons_self)) h
  · rename_i r _ hr
    exact absurd (List.mem_reverse.1 (hr ▸ List.mem_cons_self)) h
  · rfl

theorem chomp_nl {t : List Char} (h : '\r' ∉ t) : chomp (t ++ ['\n']) = t := by
  unfold chomp
  rw [List.reverse_append]
  split
  · rename_i r hr
    simp only [List.reverse_singleton, List.singleton_append, List.cons.injEq, true_and] at hr
    exact absurd (List.mem_reverse.1 (hr ▸ List.mem_cons_self)) h
  · rename_i r _ hr
    simp only [List.reverse_singleton, List.singleton_append, List.cons.injEq, true_and] at hr
    rw [← hr, List.reverse_reverse]
  · rename_i _ h2
    exact absurd rfl (h2 t.reverse)

theorem record_eq_encode (t : List Char) : record t = Utf8.encode (t ++ ['\n']) := by
  rw [Utf8.encode_append]; rfl

/-- A terminated text reads back. -/
theorem readLine_record {t : List Char} (hr : '\r' ∉ t) : readLine (record t) = some t := by
  rw [readLine, record_eq_encode, Utf8.decode_encode, Option.map_some, chomp_nl hr]

/-- A text at the end of the file reads back without its newline. -/
theorem readLine_tail {t : List Char} (hn : '\n' ∉ t) : readLine (Utf8.encode t) = some t := by
  rw [readLine, Utf8.decode_encode, Option.map_some, chomp_eq_self hn]

/-- A piece that is not valid UTF-8 has no text. -/
theorem readLine_eq_none {raw : List UInt8} : readLine raw = none ↔ Utf8.decode raw = none :=
  Option.map_eq_none_iff

end Lines
