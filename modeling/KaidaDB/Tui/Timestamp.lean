import KaidaDB.Lib.Calendar

/-!
# Time stamps in the terminal UI

`format_timestamp` prints a number of seconds since 1970 as a date and a time of day. It takes whole
years off the days, as long as there are enough, and then whole months. The numbers are `i64` in the
code and stay in its range: no step makes one larger that is not small.
-/

namespace KaidaDB

open Calendar

def isLeap (y : Int) : Bool := (y.tmod 4 == 0 && y.tmod 100 != 0) || y.tmod 400 == 0

def daysInYear (y : Int) : Int := if isLeap y then 366 else 365

theorem daysInYear_pos (y : Int) : 0 < daysInYear y := by
  unfold daysInYear
  split_ifs <;> decide

/-- The loop over the years: the year, and the days that remain. -/
def yearLoop (y remainingDays : Int) : Int × Int :=
  if remainingDays < daysInYear y then (y, remainingDays)
  else yearLoop (y + 1) (remainingDays - daysInYear y)
termination_by remainingDays.toNat
decreasing_by
  have hpos := daysInYear_pos y
  omega

def monthDays (y : Int) : List Int :=
  if isLeap y then [31, 29, 31, 30, 31, 30, 31, 31, 30, 31, 30, 31]
  else [31, 28, 31, 30, 31, 30, 31, 31, 30, 31, 30, 31]

/-- The loop over the months from number `i` on; `m` is 0 unless it stops. -/
def monthLoop : List Int → Nat → Int → Nat × Int
  | [], _, remainingDays => (0, remainingDays)
  | md :: mds, i, remainingDays =>
    if remainingDays < md then (i, remainingDays) else monthLoop mds (i + 1) (remainingDays - md)

/-- What is printed. -/
structure CivilTime where
  year : Int
  month : Nat
  day : Int
  hours : Int
  minutes : Int
  seconds : Int
deriving DecidableEq, Repr

def civilTime (ts : Int) : CivilTime :=
  let days := ts.tdiv 86400
  let timeOfDay := ts.tmod 86400
  let (y, remainingDays) := yearLoop 1970 days
  let (m, remainingDays) := monthLoop (monthDays y) 0 remainingDays
  { year := y
    month := m + 1
    day := remainingDays + 1
    hours := timeOfDay.tdiv 3600
    minutes := (timeOfDay.tmod 3600).tdiv 60
    seconds := timeOfDay.tmod 60 }

/-- `{n:0width}`: zeros in front, but behind the sign. -/
def zeroPadded (width : Nat) (n : Int) : String :=
  let digits := Nat.toDigits 10 n.natAbs
  if n < 0 then String.ofList ('-' :: (List.replicate (width - 1 - digits.length) '0' ++ digits))
  else String.ofList (List.replicate (width - digits.length) '0' ++ digits)

def CivilTime.print (c : CivilTime) : String :=
  zeroPadded 4 c.year ++ "-" ++ zeroPadded 2 c.month ++ "-" ++ zeroPadded 2 c.day ++ " " ++
    zeroPadded 2 c.hours ++ ":" ++ zeroPadded 2 c.minutes ++ ":" ++ zeroPadded 2 c.seconds ++ " UTC"

def formatTimestamp (ts : Int) : String := if ts = 0 then "\u2014" else (civilTime ts).print

/-! ## What it is to be -/

/-- The start of the year 1970. -/
def unixEpoch : DateTime := ⟨.newYear 1970, .midnight⟩

def CivilTime.of (i : DateTime) : CivilTime where
  year := i.date.year
  month := i.date.month
  day := i.date.day
  hours := i.time.hour
  minutes := i.time.minute
  seconds := i.time.second

end KaidaDB
