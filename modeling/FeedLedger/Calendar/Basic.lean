namespace FeedLedger.Calendar

/-- Leap years: every fourth, but of the hundreds only every fourth. -/
def isLeap (year : Nat) : Bool := year % 4 = 0 && (year % 100 ≠ 0 || year % 400 = 0)

def monthLengths (year : Nat) : List Nat :=
  [31, if isLeap year then 29 else 28, 31, 30, 31, 30, 31, 31, 30, 31, 30, 31]

def daysBeforeYear (year : Nat) : Nat :=
  let y := year - 1
  365 * y + y / 4 - y / 100 + y / 400

def daysIn : List Nat → Nat
  | [] => 0
  | length :: rest => length + daysIn rest

/-- The days from 0001-01-01 to a date of the proleptic Gregorian calendar. -/
def dayNumber (year month day : Nat) : Nat :=
  daysBeforeYear year + daysIn ((monthLengths year).take (month - 1)) + (day - 1)

/-- The dates the calendar has. -/
def IsDate (year month day : Nat) : Prop :=
  1 ≤ year ∧ 1 ≤ month ∧ 1 ≤ day ∧ ∃ length, (monthLengths year)[month - 1]? = some length ∧ day ≤ length

/-- The year a day number falls in, and the days before it in that year: whole spans of 400, 100, 4 and 1
years are counted off. The last year of a hundred and of a four can be a day longer than the others. -/
def yearAndDay (n : Nat) : Nat × Nat :=
  let inEra := n % 146097
  let hundreds := min (inEra / 36524) 3
  let inHundred := inEra - 36524 * hundreds
  let inFour := inHundred % 1461
  let ones := min (inFour / 365) 3
  (400 * (n / 146097) + 100 * hundreds + 4 * (inHundred / 1461) + ones + 1, inFour - 365 * ones)

/-- Walks through months of the given lengths: the month reached, counted from `month`, and the day. -/
def monthAndDay (month n : Nat) : List Nat → Nat × Nat
  | [] => (month, n + 1)
  | length :: rest => if n < length then (month, n + 1) else monthAndDay (month + 1) (n - length) rest

/-- The date of a day number: year, month, day. -/
def dateOfDay (n : Nat) : Nat × Nat × Nat :=
  let (year, inYear) := yearAndDay n
  (year, monthAndDay 1 inYear (monthLengths year))

def epochDay : Nat := 719162

/-- Day number after the last day of the year 9999. -/
def endDay : Nat := 3652059

theorem dayNumber_epoch : dayNumber 1970 1 1 = epochDay := by decide

theorem isLeap_iff (year : Nat) :
    isLeap year = true ↔ year % 4 = 0 ∧ (year % 100 ≠ 0 ∨ year % 400 = 0) := by
  simp [isLeap]

end FeedLedger.Calendar
