import KaidaDB.Tui.InputWindow

/-!
# When the window fits

A window is the characters between two numbers of characters, and the cursor is between the two texts
`a` and `b` (`window_eq`). Only at the end of a text may one more column be needed than there is: if
the text is as long as the window it is not moved, and in a window of one column it would start behind
the last character, which is taken for its start (`input_window_iff`).
-/

namespace KaidaDB

open ByteIndex

open String (utf8Len)

variable {width : Nat}

/-! ## The parts -/

/-- The cursor is on the first character of `after`, if there is one. -/
theorem split_nil (before : List Char) : InputSpans.split before [] = some ⟨before, [' '], []⟩ := rfl

theorem split_cons (before : List Char) (c : Char) (after : List Char) :
    InputSpans.split before (c :: after) = some ⟨before, [c], after⟩ := by
  have hindex : (nthIndex (c :: after) 1).getD (utf8Len (c :: after)) = utf8Len [c] := nthIndex_getD _ 1
  have hsplit := splitAt?_append [c] after
  rw [List.singleton_append] at hsplit
  rw [InputSpans.split, if_neg (List.cons_ne_nil c after), hindex, hsplit]
  rfl

/-! ## The window -/

/-- The part of `visible` before the cursor. -/
theorem splitAt?_visible (p q : List Char) (n : Nat) (hn : n = utf8Len p) :
    splitAt? (p ++ q) (min n (utf8Len (p ++ q))) = some (p, q) := by
  rw [hn, Nat.min_eq_left]
  · exact splitAt?_append p q
  · rw [String.utf8Len_append]
    exact Nat.le_add_right _ _

theorem utf8Len_drop (a : List Char) (i : Nat) :
    utf8Len a - utf8Len (a.take i) = utf8Len (a.drop i) := by
  have h := congrArg utf8Len (List.take_append_drop i a)
  rw [String.utf8Len_append] at h
  omega

/-- The window from number `i` up to number `j`, with the cursor between `a` and `b`. -/
theorem window_eq (a b : List Char) {i j : Nat} (hi : i ≤ a.length) (hj : a.length ≤ j) :
    (do
      let visible ← slice? (a ++ b) (utf8Len ((a ++ b).take i)) (utf8Len ((a ++ b).take j))
      let cur := min (utf8Len a - utf8Len ((a ++ b).take i)) (utf8Len visible)
      let (before, after) ← splitAt? visible cur
      InputSpans.split before after) = InputSpans.split (a.drop i) (b.take (j - a.length)) := by
  have hvisible : ((a ++ b).take j).drop i = a.drop i ++ b.take (j - a.length) := by
    rw [List.take_append, List.take_of_length_le hj, List.drop_append_of_le_length hi]
  rw [slice?_take (Nat.le_trans hi hj), hvisible, List.take_append_of_le_length hi]
  dsimp only [Option.bind_eq_bind, Option.bind_some]
  rw [splitAt?_visible _ _ _ (utf8Len_drop a i)]
  rfl

theorem cursor_min (a b : List Char) : min (utf8Len a) (utf8Len (a ++ b)) = utf8Len a := by
  rw [String.utf8Len_append]
  omega

theorem nthIndex_start (l : List Char) : (nthIndex l 0).getD 0 = utf8Len (l.take 0) := by
  cases l <;> rfl

/-- A text that is no longer than the window is shown as a whole. -/
theorem spans_whole (a b : List Char) (h : (a ++ b).length ≤ width) :
    inputCursorSpans (a ++ b) (utf8Len a) width = InputSpans.split a b := by
  have hlen : a.length ≤ width := by
    rw [List.length_append] at h
    omega
  have hrest : b.take (width - a.length) = b := by
    rw [List.length_append] at h
    exact List.take_of_length_le (by omega)
  have hstop : utf8Len (a ++ b) = utf8Len ((a ++ b).take width) := by
    rw [List.take_of_length_le h]
  have hwindow := window_eq a b (Nat.zero_le a.length) hlen
  rw [List.drop_zero, hrest] at hwindow
  rw [← hwindow, inputCursorSpans, cursor_min, if_pos h, Option.bind_eq_bind, Option.bind_some]
  dsimp only
  rw [if_pos h, nthIndex_start, hstop]

theorem startChar_eq (a b : List Char) (width : Nat) :
    ((slice? (a ++ b) 0 (utf8Len a)).map fun before => before.length + 1 - width)
      = some (a.length + 1 - width) :=
  congrArg (Option.map _) (slice?_append [] a b)

/-- The window of a longer text ends behind the cursor. -/
theorem spans_window (a b : List Char) (h : width < (a ++ b).length) (hstart : a.length + 1 - width < (a ++ b).length)
    (hwidth : 0 < width) :
    inputCursorSpans (a ++ b) (utf8Len a) width = InputSpans.split (a.drop (a.length + 1 - width))
      (b.take (a.length + 1 - width + width - a.length)) := by
  rw [← window_eq a b (by omega) (by omega), inputCursorSpans, cursor_min,
    if_neg (Nat.not_le.2 h), startChar_eq, Option.bind_eq_bind, Option.bind_some]
  dsimp only
  rw [if_neg (Nat.not_le.2 h), nthIndex_of_lt hstart, Option.getD_some, nthIndex_getD]

example : inputCursorSpans "0123456789abcdef".toList 14 6 = some ⟨"9abcd".toList, ['e'], []⟩ := by decide

example : inputCursorSpans "0123456789abcdef".toList 16 6 = some ⟨"bcdef".toList, [' '], []⟩ := by decide

/-- In a window of one column it would start at the end. -/
theorem spans_column (a : List Char) (h : 1 < a.length) :
    inputCursorSpans a (utf8Len a) 1 = some ⟨a, [' '], []⟩ := by
  have hstart : (nthIndex a a.length).getD 0 = 0 := by
    rw [nthIndex_none (Nat.le_refl _)]
    rfl
  have hstop : (nthIndex a (a.length + 1)).getD (utf8Len a) = utf8Len a := by
    rw [nthIndex_none (Nat.le_succ _)]
    rfl
  have hslice : slice? a 0 (utf8Len a) = some a := by
    have hwhole := slice?_append [] a []
    rwa [List.append_nil] at hwhole
  have hsplit := splitAt?_append a []
  rw [List.append_nil] at hsplit
  rw [inputCursorSpans, Nat.min_self, if_neg (Nat.not_le.2 h), hslice, Option.map_some,
    Nat.add_sub_cancel, Option.bind_eq_bind, Option.bind_some]
  dsimp only
  rw [if_neg (Nat.not_le.2 h), hstart, hstop, hslice, Option.bind_eq_bind, Option.bind_some,
    Nat.sub_zero, Nat.min_self, hsplit]
  rfl

/-! ## When it fits -/

/-- `input_cursor_spans` does not panic, and what it returns shows the cursor. -/
def WindowShows (text : List Char) (cursor width : Nat) : Prop :=
  ∃ spans, inputCursorSpans text cursor width = some spans ∧ spans.ShowsCursor text cursor width

theorem windowShows_of {text : List Char} {cursor : Nat} {spans : InputSpans}
    (h : inputCursorSpans text cursor width = some spans) :
    WindowShows text cursor width ↔ spans.ShowsCursor text cursor width := by
  refine ⟨?_, fun hshows => ⟨spans, h, hshows⟩⟩
  rintro ⟨spans', hspans', hshows⟩
  exact Option.some.inj (hspans'.symm.trans h) ▸ hshows

/-- At the end of the text only the number of columns may be wrong. -/
theorem shows_end_iff (pre a : List Char) (width : Nat) :
    InputSpans.ShowsCursor (pre ++ a) (utf8Len (pre ++ a)) width ⟨a, [' '], []⟩ ↔ a.length < width := by
  constructor
  · intro h
    have hfits := h.fits
    simp only [List.append_nil, List.length_append, List.length_singleton] at hfits
    exact hfits
  · intro h
    refine ⟨?_, rfl, ⟨pre, [], rfl, ?_⟩, fun _ => ⟨rfl, rfl⟩⟩
    · simp only [List.append_nil, List.length_append, List.length_singleton]
      exact h
    · rw [if_pos rfl, List.append_nil, List.append_nil]

theorem shows_whole_iff (a : List Char) (width : Nat) :
    InputSpans.ShowsCursor a (utf8Len a) width ⟨a, [' '], []⟩ ↔ a.length < width := shows_end_iff [] a width

/-- Before the end the character at the cursor and some of the text behind it are shown. -/
theorem shows_middle (pre a : List Char) (c : Char) (rest post : List Char)
    (h : a.length + 1 + rest.length ≤ width) :
    InputSpans.ShowsCursor (pre ++ a ++ c :: (rest ++ post)) (utf8Len (pre ++ a)) width
      ⟨a, [c], rest⟩ := by
  have hbefore := (lt_utf8Len (pre ++ a) c (rest ++ post)).ne
  refine ⟨?_, rfl, ⟨pre, post, rfl, ?_⟩, fun hend => absurd hend hbefore⟩
  · simp only [List.length_append, List.length_singleton]
    exact h
  · rw [if_neg hbefore]
    simp only [List.append_assoc, List.cons_append, List.nil_append]

theorem windowShows_end (a : List Char) (hwidth : 0 < width) :
    WindowShows a (utf8Len a) width ↔ ¬ (a.length = width ∨ (width = 1 ∧ a ≠ [])) := by
  have hne : a ≠ [] ↔ 0 < a.length := List.length_pos_iff.symm
  rw [hne]
  rcases Nat.lt_or_ge width a.length with hlt | hle
  · by_cases hone : width = 1
    · subst hone
      rw [windowShows_of (spans_column a hlt), shows_whole_iff]
      omega
    · have hspans := @spans_window width a []
      rw [List.append_nil, List.take_nil, split_nil] at hspans
      have hshows := shows_end_iff (a.take (a.length + 1 - width)) (a.drop (a.length + 1 - width)) width
      rw [List.take_append_drop, List.length_drop] at hshows
      rw [windowShows_of (hspans hlt (by omega) hwidth), hshows]
      omega
  · have hspans := @spans_whole width a []
    rw [List.append_nil, split_nil] at hspans
    rw [windowShows_of (hspans hle), shows_whole_iff]
    omega

theorem windowShows_middle (a : List Char) (c : Char) (b : List Char) (hwidth : 0 < width) :
    WindowShows (a ++ c :: b) (utf8Len a) width := by
  rcases Nat.lt_or_ge width (a ++ c :: b).length with hlt | hle
  · have hlength : (a ++ c :: b).length = a.length + (b.length + 1) := List.length_append
    have hspans := spans_window a (c :: b) hlt (by omega) hwidth
    obtain ⟨k, hk⟩ : ∃ k, a.length + 1 - width + width - a.length = k + 1 :=
      ⟨a.length + 1 - width + width - a.length - 1, by omega⟩
    rw [hk, List.take_succ_cons, split_cons] at hspans
    refine (windowShows_of hspans).2 ?_
    have hfits : (a.drop (a.length + 1 - width)).length + 1 + (b.take k).length ≤ width := by
      rw [List.length_drop, List.length_take]
      omega
    have hshows := shows_middle (a.take (a.length + 1 - width)) _ c _ (b.drop k) hfits
    rwa [List.take_append_drop, List.take_append_drop] at hshows
  · have hlength : (a ++ c :: b).length = a.length + (b.length + 1) := List.length_append
    have hspans := spans_whole a (c :: b) hle
    rw [split_cons] at hspans
    refine (windowShows_of hspans).2 ?_
    have hshows := @shows_middle width [] a c b [] (by omega)
    rwa [List.nil_append, List.append_nil] at hshows

/-- The window shows the cursor unless one more column is needed for it than there is. -/
theorem input_window_iff (text : List Char) (cursor width : Nat) (hcursor : IsBoundary text cursor)
    (hwidth : 1 ≤ width) :
    WindowShows text cursor width ↔ ¬ Overflows text cursor width := by
  obtain ⟨a, b, rfl, rfl⟩ := hcursor
  cases b with
  | nil =>
    rw [List.append_nil, windowShows_end a hwidth, Overflows]
    exact not_congr (and_iff_right rfl).symm
  | cons c b =>
    exact iff_of_true (windowShows_middle a c b hwidth) fun h => (lt_utf8Len a c b).ne h.1

/-- Two characters of two bytes, with the cursor between them, in a window of one column. -/
theorem input_window_iff_accents :
    IsBoundary ['é', 'è'] 2 ∧ 1 ≤ 1 ∧ (WindowShows ['é', 'è'] 2 1 ↔ ¬ Overflows ['é', 'è'] 2 1) := by
  have hcursor : IsBoundary ['é', 'è'] 2 := isBoundary_append ['é'] ['è']
  exact ⟨hcursor, Nat.le_refl _, input_window_iff _ _ _ hcursor (Nat.le_refl _)⟩

/-- A text that is exactly as long as the window, with the cursor at its end. -/
theorem input_window_full : IsBoundary ['a'] 1 ∧
    inputCursorSpans ['a'] 1 1 = some ⟨['a'], [' '], []⟩ ∧
    ¬ ∀ text cursor width, IsBoundary text cursor → 1 ≤ width → WindowShows text cursor width := by
  have hcursor : IsBoundary ['a'] 1 := isBoundary_end ['a']
  refine ⟨hcursor, by decide, fun h => ?_⟩
  exact (input_window_iff _ _ _ hcursor (Nat.le_refl _)).1 (h _ _ _ hcursor (Nat.le_refl _))
    ⟨rfl, .inl rfl⟩

end KaidaDB
