import KaidaDB.Tui.Timestamp

/-!
# Time stamps are the right instants

Taking off a year is as many days later (`next_year`), and so is taking off a month, so what the loops
leave is a day of the month at which they stop (`yearLoop_spec`, `monthLoop_spec`). What is printed are
the fields of the instant so many seconds after the start of 1970, and since the numbers behind the
year have two digits each, no other instant is printed like it (`format_timestamp_denotes`).
-/

namespace KaidaDB

open Calendar

/-! ## Years -/

theorem isLeap_iff (y : Nat) : isLeap y = true ↔ Leap y := by
  have hy : (0 : Int) ≤ y := Int.natCast_nonneg y
  rw [isLeap, Leap, Int.tmod_eq_emod_of_nonneg hy, Int.tmod_eq_emod_of_nonneg hy,
    Int.tmod_eq_emod_of_nonneg hy]
  simp only [Bool.or_eq_true, Bool.and_eq_true, beq_iff_eq, bne_iff_ne]
  omega

theorem daysInYear_cast (y : Nat) : daysInYear y = (yearLength y : Int) := by
  unfold daysInYear yearLength
  simp only [isLeap_iff]
  split_ifs <;> rfl

/-- The loop stops in the year of the day. -/
theorem yearLoop_spec (days : Nat) : ∀ y : Nat, ∃ y' days' : Nat, yearLoop y days = (↑y', ↑days') ∧
    days' < yearLength y' ∧ Date.next^[days] (.newYear y) = Date.next^[days'] (.newYear y') := by
  induction days using Nat.strongRecOn with
  | _ days ih =>
    intro y
    have hlength := daysInYear_cast y
    have hpos := daysInYear_pos y
    rw [yearLoop, hlength]
    split_ifs with hlt
    · exact ⟨y, days, rfl, by omega, rfl⟩
    · obtain ⟨less, rfl⟩ : ∃ less, days = less + yearLength y := ⟨days - yearLength y, by omega⟩
      obtain ⟨y', days', hloop, hlt', hdate⟩ := ih less (by omega) (y + 1)
      refine ⟨y', days', ?_, hlt', ?_⟩
      · rw [← hloop]
        congr 1
        omega
      · rw [Function.iterate_add_apply, next_year, hdate]

/-! ## Months -/

theorem monthDays_cast (y : Nat) : monthDays y = (lengths y 1 12).map Nat.cast := by
  unfold monthDays lengths daysIn
  simp only [isLeap_iff]
  split_ifs <;> rfl

/-- The loop stops in the month of the day. -/
theorem monthLoop_spec (year k : Nat) : ∀ month days : Nat, 1 ≤ month ∧ month + k = 13 →
    days < (lengths year month k).sum →
    ∃ (month' days' : Nat) (h' : 1 ≤ month' ∧ month' ≤ 12),
      monthLoop ((lengths year month k).map Nat.cast) (month - 1) days = (month' - 1, ↑days') ∧
      days' < daysIn year month' ∧
      ∀ hmonth, Date.next^[days] (.first year month hmonth) = Date.next^[days'] (.first year month' h') := by
  induction k with
  | zero => exact fun month days _ hlt => absurd hlt (Nat.not_lt_zero days)
  | succ k ih =>
    intro month days h hlt
    have hmonth : 1 ≤ month ∧ month ≤ 12 := by omega
    rw [lengths_succ, List.sum_cons] at hlt
    rw [lengths_succ, List.map_cons, monthLoop]
    split_ifs with hin
    · exact ⟨month, days, hmonth, rfl, by omega, fun _ => rfl⟩
    · obtain ⟨less, rfl⟩ : ∃ less, days = less + daysIn year month := ⟨days - daysIn year month, by omega⟩
      obtain ⟨month', days', h', hloop, hlt', hdate⟩ := ih (month + 1) less (by omega) (by omega)
      refine ⟨month', days', h', ?_, hlt', fun _ => ?_⟩
      · rw [← hloop]
        congr 1
        · omega
        · omega
      · -- there are days left, so it is not the last month
        have hnext : month < 12 := by
          by_contra hlast
          obtain rfl : k = 0 := by omega
          exact absurd hlt (by rw [lengths, List.range'_zero, List.map_nil, List.sum_nil]; omega)
        rw [Function.iterate_add_apply, next_last hmonth, dif_pos hnext, hdate]

/-! ## Instants -/

/-- The day that the loops find. -/
theorem date_spec (n : Nat) : ∃ (y month day : Nat) (hmonth : 1 ≤ month ∧ month ≤ 12)
    (hday : 1 ≤ 1 + day ∧ 1 + day ≤ daysIn y month),
    (∃ days : Int, yearLoop 1970 (n : Int) = (↑y, days) ∧
      monthLoop (monthDays y) 0 days = (month - 1, ↑day)) ∧
    Date.next^[n] (.newYear 1970) = ⟨y, month, 1 + day, hmonth, hday⟩ := by
  obtain ⟨y, days, hyear, hlt, hdate⟩ := yearLoop_spec n 1970
  rw [← sum_lengths] at hlt
  obtain ⟨month, day, hmonth, hmonths, hltDay, hdate'⟩ := monthLoop_spec y 12 1 days (by omega) hlt
  refine ⟨y, month, day, hmonth, by omega, ⟨days, hyear, ?_⟩, ?_⟩
  · rw [monthDays_cast]
    exact hmonths
  · rw [hdate, ← next_first hmonth hltDay]
    exact hdate' _

theorem civilTime_eq (n : Nat) : civilTime n = .of (DateTime.tick^[n] unixEpoch) := by
  obtain ⟨y, month, day, hmonth, hday, ⟨days, hyear, hmonths⟩, hdate⟩ := date_spec (n / 86400)
  have hdays : (n : Int).tdiv 86400 = ((n / 86400 : Nat) : Int) := rfl
  have hhours : ((n : Int).tmod 86400).tdiv 3600 = ((n / 3600 % 24 : Nat) : Int) := by
    show ((n % 86400 / 3600 : Nat) : Int) = _
    exact congrArg Nat.cast (by omega)
  have hminutes : (((n : Int).tmod 86400).tmod 3600).tdiv 60 = ((n / 60 % 60 : Nat) : Int) := by
    show ((n % 86400 % 3600 / 60 : Nat) : Int) = _
    exact congrArg Nat.cast (by omega)
  have hseconds : ((n : Int).tmod 86400).tmod 60 = ((n % 60 : Nat) : Int) := by
    show ((n % 86400 % 60 : Nat) : Int) = _
    exact congrArg Nat.cast (by omega)
  rw [unixEpoch, tick_iterate, hdate, civilTime, hdays, hyear]
  dsimp only
  rw [hmonths, hhours, hminutes, hseconds]
  unfold CivilTime.of Time.ofSeconds
  dsimp only
  rw [CivilTime.mk.injEq]
  exact ⟨rfl, by omega, by omega, rfl, rfl, rfl⟩

/-! ## Texts -/

theorem zeroPadded_cast (width n : Nat) : (zeroPadded width n).toList =
    List.replicate (width - (Nat.toDigits 10 n).length) '0' ++ Nat.toDigits 10 n := by
  have hn : ¬ (n : Int) < 0 := Int.not_lt.2 (Int.natCast_nonneg n)
  rw [zeroPadded, if_neg hn, String.toList_ofList, Int.natAbs_natCast]

/-- A number is read back from its digits. -/
theorem zeroPadded_injective {width m n : Nat}
    (h : (zeroPadded width m).toList = (zeroPadded width n).toList) : m = n := by
  have hread : ∀ k : Nat, Nat.ofDigitChars 10 (zeroPadded width k).toList 0 = k := by
    intro k
    rw [zeroPadded_cast, Nat.ofDigitChars_append, Nat.ofDigitChars_replicate_zero, Nat.mul_zero,
      Nat.ofDigitChars_toDigits (by decide) (by decide)]
  rw [← hread m, h, hread n]

/-- Two digits. -/
theorem length_zeroPadded {n : Nat} (h : n < 100) : (zeroPadded 2 n).toList.length = 2 := by
  have hlen : (Nat.toDigits 10 n).length ≤ 2 := (Nat.length_toDigits_le_iff (by decide) (by decide)).2 h
  rw [zeroPadded_cast, List.length_append, List.length_replicate]
  omega

/-- The part behind the last separator is known by its length. -/
theorem peel {a a' sep b b' : List Char} (h : a ++ sep ++ b = a' ++ sep ++ b') (hlen : b.length = b'.length) :
    a = a' ∧ b = b' := by
  obtain ⟨hfront, hback⟩ := List.append_inj' h hlen
  exact ⟨List.append_cancel_right hfront, hback⟩

theorem print_injective {i j : DateTime} (h : (CivilTime.of i).print = (CivilTime.of j).print) : i = j := by
  have htwo : ∀ {m n : Nat}, m < 100 → n < 100 →
      (zeroPadded 2 m).toList.length = (zeroPadded 2 n).toList.length := fun hm hn =>
    (length_zeroPadded hm).trans (length_zeroPadded hn).symm
  have hdays := daysIn_le i.date.year i.date.month
  have hdays' := daysIn_le j.date.year j.date.month
  have hi := i.date.month_mem
  have hi' := i.date.day_mem
  have hj := j.date.month_mem
  have hj' := j.date.day_mem
  have hti := i.time.hour_lt
  have hti' := i.time.minute_lt
  have hti'' := i.time.second_lt
  have htj := j.time.hour_lt
  have htj' := j.time.minute_lt
  have htj'' := j.time.second_lt
  have htext := congrArg String.toList h
  unfold CivilTime.print CivilTime.of at htext
  simp only [String.toList_append] at htext
  obtain ⟨htext, hsecond⟩ := peel (List.append_cancel_right htext) (htwo (by omega) (by omega))
  obtain ⟨htext, hminute⟩ := peel htext (htwo (by omega) (by omega))
  obtain ⟨htext, hhour⟩ := peel htext (htwo (by omega) (by omega))
  obtain ⟨htext, hday⟩ := peel htext (htwo (by omega) (by omega))
  obtain ⟨hyear, hmonth⟩ := peel htext (htwo (by omega) (by omega))
  have hdate : i.date = j.date := Date.ext (zeroPadded_injective hyear) (zeroPadded_injective hmonth)
    (zeroPadded_injective hday)
  have htime : i.time = j.time := Time.ext (zeroPadded_injective hhour) (zeroPadded_injective hminute)
    (zeroPadded_injective hsecond)
  cases i
  cases j
  exact congrArg₂ DateTime.mk hdate htime

/-- A time stamp is printed as the instant so many seconds after the start of 1970, and none is printed
like another. -/
theorem format_timestamp_denotes (ts : Int) (h : 1 ≤ ts) :
    formatTimestamp ts = (CivilTime.of (DateTime.tick^[ts.toNat] unixEpoch)).print ∧
    ∀ ts', 1 ≤ ts' → formatTimestamp ts' = formatTimestamp ts → ts' = ts := by
  have hprint : ∀ t : Int, 1 ≤ t →
      formatTimestamp t = (CivilTime.of (DateTime.tick^[t.toNat] unixEpoch)).print := by
    intro t ht
    rw [formatTimestamp, if_neg (by omega), ← civilTime_eq, Int.toNat_of_nonneg (by omega)]
  refine ⟨hprint ts h, fun ts' h' heq => ?_⟩
  rw [hprint ts h, hprint ts' h'] at heq
  have hsame := tick_iterate_injective unixEpoch (print_injective heq)
  omega

/-- The last second of a leap day. -/
theorem format_timestamp_denotes_leapDay : formatTimestamp 68255999 = "1972-02-29 23:59:59 UTC" ∧
    formatTimestamp 68255999
      = (CivilTime.of (DateTime.tick^[(68255999 : Int).toNat] unixEpoch)).print ∧
    ∀ ts', 1 ≤ ts' → formatTimestamp ts' = formatTimestamp 68255999 → ts' = 68255999 := by
  have hcivil : civilTime 68255999 = ⟨1972, 2, 29, 23, 59, 59⟩ := by
    have hyear : yearLoop 1970 789 = (1972, 59) := by
      simp [yearLoop, daysInYear, isLeap]
    have hdays : (68255999 : Int).tdiv 86400 = 789 := rfl
    rw [civilTime, hdays]
    dsimp only
    rw [hyear]
    decide
  refine ⟨?_, format_timestamp_denotes 68255999 (by decide)⟩
  rw [formatTimestamp, hcivil]
  decide

end KaidaDB
