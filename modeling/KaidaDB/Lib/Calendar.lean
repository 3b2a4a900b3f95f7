import Mathlib.Algebra.BigOperators.Group.List.Basic
import Mathlib.Algebra.GroupWithZero.Nat
import Mathlib.Algebra.Order.Monoid.Defs
import Mathlib.Logic.Function.Iterate
import Mathlib.Order.Monotone.Basic

/-!
# The Gregorian calendar

Dates and times of day with all their fields in range, the day after a date (`Date.next`) and the second
after an instant (`DateTime.tick`), on days of 86400 seconds. After so many seconds from midnight it is
as many days later as there are whole days in them (`tick_iterate`), a month or a year later after the
days it has (`next_month`, `next_year`), and no instant is met twice (`tick_iterate_injective`).
-/

namespace Calendar

/-- Every fourth year, but of the centuries only every fourth. -/
def Leap (year : Nat) : Prop := 4 ∣ year ∧ (100 ∣ year → 400 ∣ year)

instance : DecidablePred Leap := fun year =>
  inferInstanceAs (Decidable (4 ∣ year ∧ (100 ∣ year → 400 ∣ year)))

def daysIn (year month : Nat) : Nat :=
  if month = 2 then if Leap year then 29 else 28
  else if month = 4 ∨ month = 6 ∨ month = 9 ∨ month = 11 then 30
  else 31

theorem one_le_daysIn (year month : Nat) : 1 ≤ daysIn year month := by
  unfold daysIn
  split_ifs <;> decide

theorem daysIn_le (year month : Nat) : daysIn year month ≤ 31 := by
  unfold daysIn
  split_ifs <;> decide

@[ext]
structure Date where
  year : Nat
  month : Nat
  day : Nat
  month_mem : 1 ≤ month ∧ month ≤ 12
  day_mem : 1 ≤ day ∧ day ≤ daysIn year month
deriving DecidableEq, Repr

@[ext]
structure Time where
  hour : Nat
  minute : Nat
  second : Nat
  hour_lt : hour < 24
  minute_lt : minute < 60
  second_lt : second < 60
deriving DecidableEq, Repr

structure DateTime where
  date : Date
  time : Time
deriving DecidableEq, Repr

/-- The first day of a month. -/
def Date.first (year month : Nat) (h : 1 ≤ month ∧ month ≤ 12) : Date :=
  ⟨year, month, 1, h, Nat.le_refl 1, one_le_daysIn year month⟩

/-- New Year's Day. -/
def Date.newYear (year : Nat) : Date := .first year 1 ⟨Nat.le_refl 1, by decide⟩

/-- The day after. -/
def Date.next (d : Date) : Date :=
  if hday : d.day < daysIn d.year d.month then
    { d with day := d.day + 1, day_mem := ⟨Nat.le_add_left 1 _, hday⟩ }
  else if hmonth : d.month < 12 then .first d.year (d.month + 1) ⟨Nat.le_add_left 1 _, hmonth⟩
  else .newYear (d.year + 1)

def Time.midnight : Time := ⟨0, 0, 0, by decide, by decide, by decide⟩

/-- The second after. -/
def DateTime.tick (i : DateTime) : DateTime :=
  if h : i.time.second + 1 < 60 then
    { i with time := { i.time with second := i.time.second + 1, second_lt := h } }
  else if h : i.time.minute + 1 < 60 then
    { i with time := ⟨i.time.hour, i.time.minute + 1, 0, i.time.hour_lt, h, by decide⟩ }
  else if h : i.time.hour + 1 < 24 then
    { i with time := ⟨i.time.hour + 1, 0, 0, h, by decide, by decide⟩ }
  else ⟨i.date.next, .midnight⟩

/-! ## Seconds -/

/-- The time of day so many seconds after a midnight. -/
def Time.ofSeconds (n : Nat) : Time :=
  ⟨n / 3600 % 24, n / 60 % 60, n % 60, by omega, by omega, by omega⟩

theorem tick_ofSeconds (d : Date) (n : Nat) :
    DateTime.tick ⟨d, .ofSeconds n⟩ =
      ⟨if (n + 1) % 86400 = 0 then d.next else d, .ofSeconds (n + 1)⟩ := by
  unfold DateTime.tick Time.ofSeconds
  dsimp only
  by_cases hday : (n + 1) % 86400 = 0
  · -- all three places are full
    rw [dif_neg (by omega), dif_neg (by omega), dif_neg (by omega), if_pos hday]
    exact congrArg (DateTime.mk d.next) (Time.ext (by dsimp only [Time.midnight]; omega)
      (by dsimp only [Time.midnight]; omega) (by dsimp only [Time.midnight]; omega))
  · rw [if_neg hday]
    split_ifs
    · exact congrArg (DateTime.mk d) (Time.ext (by dsimp only; omega) (by dsimp only; omega)
        (by dsimp only; omega))
    · exact congrArg (DateTime.mk d) (Time.ext (by dsimp only; omega) (by dsimp only; omega)
        (by dsimp only; omega))
    · exact congrArg (DateTime.mk d) (Time.ext (by dsimp only; omega) (by dsimp only; omega)
        (by dsimp only; omega))
    · omega

/-- So many seconds after midnight. -/
theorem tick_iterate (d : Date) (n : Nat) :
    DateTime.tick^[n] ⟨d, .midnight⟩ = ⟨Date.next^[n / 86400] d, .ofSeconds n⟩ := by
  induction n with
  | zero => rfl
  | succ n ih =>
    rw [Function.iterate_succ_apply', ih, tick_ofSeconds]
    split_ifs with hday
    · rw [show (n + 1) / 86400 = n / 86400 + 1 by omega, Function.iterate_succ_apply']
    · rw [show (n + 1) / 86400 = n / 86400 by omega]

/-! ## Days -/

/-- Within a month the days are counted. -/
theorem next_iterate_day (n : Nat) : ∀ (d : Date) (h : d.day + n ≤ daysIn d.year d.month),
    Date.next^[n] d = { d with
      day := d.day + n
      day_mem := ⟨Nat.le_add_right_of_le d.day_mem.1, h⟩ } := by
  induction n with
  | zero => exact fun _ _ => rfl
  | succ n ih =>
    intro d h
    have hlt : d.day + n < daysIn d.year d.month := h
    rw [Function.iterate_succ_apply', ih d (by omega)]
    exact dif_pos hlt

section
variable {year month : Nat} (h : 1 ≤ month ∧ month ≤ 12)

/-- A day of a month. -/
theorem next_first {n : Nat} (hn : n < daysIn year month) :
    Date.next^[n] (.first year month h) = ⟨year, month, 1 + n, h, by omega, by omega⟩ :=
  next_iterate_day n _ (by dsimp only [Date.first]; omega)

/-- The day after the last one of a month. -/
theorem next_last : Date.next^[daysIn year month] (.first year month h) =
    if hmonth : month < 12 then .first year (month + 1) ⟨Nat.le_add_left 1 _, hmonth⟩
    else .newYear (year + 1) := by
  have hpos := one_le_daysIn year month
  obtain ⟨n, hn⟩ : ∃ n, daysIn year month = n + 1 := ⟨daysIn year month - 1, by omega⟩
  rw [hn, Function.iterate_succ_apply', next_first h (by omega), Date.next, dif_neg (by dsimp only; omega)]

end

/-- The lengths of `k` months from one on. -/
def lengths (year month k : Nat) : List Nat := (List.range' month k).map (daysIn year)

theorem lengths_succ (year month k : Nat) :
    lengths year month (k + 1) = daysIn year month :: lengths year (month + 1) k := by
  rw [lengths, List.range'_succ, List.map_cons]
  rfl

/-- A year is over after the days of the months that are left. -/
theorem next_rest (year k : Nat) : ∀ (month : Nat) (h : 1 ≤ month ∧ month ≤ 12), month + k = 12 →
    Date.next^[(lengths year month (k + 1)).sum] (.first year month h) = .newYear (year + 1) := by
  induction k with
  | zero =>
    intro month h hk
    rw [lengths_succ, List.sum_cons, Nat.add_comm, Function.iterate_add_apply, next_last h,
      dif_neg (by omega)]
    rfl
  | succ k ih =>
    intro month h hk
    rw [lengths_succ, List.sum_cons, Nat.add_comm, Function.iterate_add_apply, next_last h,
      dif_pos (by omega)]
    exact ih (month + 1) _ (by omega)

def yearLength (year : Nat) : Nat := if Leap year then 366 else 365

theorem sum_lengths (year : Nat) : (lengths year 1 12).sum = yearLength year := by
  unfold lengths yearLength daysIn
  split_ifs <;> rfl

theorem next_year (year : Nat) : Date.next^[yearLength year] (.newYear year) = .newYear (year + 1) := by
  rw [← sum_lengths]
  exact next_rest year 11 1 _ rfl

/-! ## Order -/

/-- A number that is larger for later dates. -/
def Date.rank (d : Date) : Nat := (d.year * 12 + d.month) * 32 + d.day

theorem rank_lt_next (d : Date) : d.rank < d.next.rank := by
  have hmonth := d.month_mem
  have hday := d.day_mem
  have hle := daysIn_le d.year d.month
  unfold Date.next
  split_ifs
  · dsimp only [Date.rank]
    omega
  · dsimp only [Date.rank, Date.first]
    omega
  · dsimp only [Date.rank, Date.newYear, Date.first]
    omega

def DateTime.rank (i : DateTime) : Nat :=
  i.date.rank * 86400 + (i.time.hour * 3600 + i.time.minute * 60 + i.time.second)

theorem rank_lt_tick (i : DateTime) : i.rank < i.tick.rank := by
  have hnext := rank_lt_next i.date
  have hhour := i.time.hour_lt
  have hminute := i.time.minute_lt
  have hsecond := i.time.second_lt
  unfold DateTime.tick
  split_ifs
  · dsimp only [DateTime.rank]
    omega
  · dsimp only [DateTime.rank]
    omega
  · dsimp only [DateTime.rank]
    omega
  · dsimp only [DateTime.rank, Time.midnight]
    omega

/-- Later seconds are other instants. -/
theorem tick_iterate_injective (i : DateTime) : Function.Injective fun n => DateTime.tick^[n] i := by
  have hmono : StrictMono fun n => (DateTime.tick^[n] i).rank := strictMono_nat_of_lt_succ fun n => by
    rw [Function.iterate_succ_apply']
    exact rank_lt_tick _
  exact fun m n heq => hmono.injective (congrArg DateTime.rank heq)

end Calendar
