import FeedLedger.Coercion
import FeedLedger.Proofs.Calendar
import Mathlib.Algebra.BigOperators.Intervals
import Mathlib.Data.List.Basic
import Mathlib.Tactic.Ring

namespace FeedLedger

open Finset

namespace Calendar

/-- The length of a month: thirty days have April, June, September and November. -/
def monthLength (year month : Nat) : Nat :=
  if month = 2 then if isLeap year then 29 else 28
  else if month = 4 ∨ month = 6 ∨ month = 9 ∨ month = 11 then 30
  else 31

/-- The days before a date from 0001-01-01 on, counted year by year, then month by month. -/
def countedDays (year month day : Nat) : Nat :=
  ∑ y ∈ Ico 1 year, yearLength y + ∑ m ∈ Ico 1 month, monthLength year m + (day - 1)

theorem sum_yearLength {year : Nat} (h : 1 ≤ year) : ∑ y ∈ Ico 1 year, yearLength y = daysBeforeYear year := by
  induction year, h using Nat.le_induction with
  | base => rfl
  | succ year hyear ih =>
    obtain ⟨y, rfl⟩ := Nat.exists_eq_add_of_le' hyear
    rw [sum_Ico_succ_top hyear, ih, daysBeforeYear_succ]

theorem monthLengths_eq (year : Nat) : monthLengths year = (List.range' 1 12).map (monthLength year) := by
  rfl

theorem daysIn_eq_sum (lengths : List Nat) : daysIn lengths = lengths.sum := by
  induction lengths with
  | nil => rfl
  | cons length rest ih => rw [daysIn, ih, List.sum_cons]

theorem sum_monthLength {year month : Nat} (h : 1 ≤ month) (hmonth : month ≤ 12) :
    ∑ m ∈ Ico 1 month, monthLength year m = daysIn ((monthLengths year).take (month - 1)) := by
  induction month, h using Nat.le_induction with
  | base => rfl
  | succ month hstart ih =>
    have hlast : (monthLengths year)[month - 1]? = some (monthLength year month) := by
      rw [monthLengths_eq, List.getElem?_map, List.getElem?_range' (by omega), Option.map_some]
      congr 2
      omega
    have htake : (monthLengths year).take (month + 1 - 1) =
        (monthLengths year).take (month - 1) ++ [monthLength year month] := by
      rw [show month + 1 - 1 = month - 1 + 1 by omega, List.take_add_one, hlast, Option.toList_some]
    rw [sum_Ico_succ_top hstart, ih (by omega), htake, daysIn_eq_sum, daysIn_eq_sum, List.sum_append, List.sum_singleton]

theorem IsDate.month_le {year month day : Nat} (h : IsDate year month day) : month ≤ 12 := by
  obtain ⟨-, hmonth, -, length, hlength, -⟩ := h
  have hin := (List.getElem?_eq_some_iff.1 hlength).1
  simp only [monthLengths, List.length_cons, List.length_nil] at hin
  omega

theorem IsDate.countedDays_eq {year month day : Nat} (h : IsDate year month day) :
    countedDays year month day = dayNumber year month day := by
  rw [countedDays, dayNumber, sum_yearLength h.1, sum_monthLength h.2.1 h.month_le]

theorem daysIn_take_le {lengths : List Nat} {i j length : Nat} (h : lengths[i]? = some length) (hij : i < j) :
    daysIn (lengths.take i) + length ≤ daysIn (lengths.take j) := by
  induction lengths generalizing i j with
  | nil => cases h
  | cons first rest ih =>
    obtain ⟨k, rfl⟩ := Nat.exists_eq_add_of_le' (Nat.zero_lt_of_lt hij)
    rw [List.take_succ_cons, daysIn]
    cases i with
    | zero =>
      cases h
      rw [List.take_zero, daysIn]
      omega
    | succ i =>
      have hrest := ih (i := i) h (Nat.lt_of_succ_lt_succ hij)
      rw [List.take_succ_cons, daysIn]
      omega

namespace IsDate

variable {year month day year' month' day' : Nat}

theorem lt_of_year_lt (h : IsDate year month day) (h' : IsDate year' month' day') (hlt : year < year') :
    dayNumber year month day < dayNumber year' month' day' := by
  have hmono := daysBeforeYear_mono (Nat.le_add_left 1 year) hlt
  exact h.bounds.2.trans_le (hmono.trans h'.bounds.1)

theorem lt_of_month_lt (h : IsDate year month day) (hlt : month < month') :
    dayNumber year month day < dayNumber year month' day' := by
  obtain ⟨-, hmonth, hday, length, hlength, hd⟩ := h
  have hle := daysIn_take_le (j := month' - 1) hlength (by omega)
  simp only [dayNumber]
  omega

theorem lt_of_day_lt (h : IsDate year month day) (hlt : day < day') :
    dayNumber year month day < dayNumber year month day' := by
  have hday : 1 ≤ day := h.2.2.1
  simp only [dayNumber]
  omega

end IsDate

end Calendar

namespace Wall

/-- What a calendar and a clock show, from the year down to the microsecond. -/
def fields (w : Wall) : List Nat := [w.year, w.month, w.day, w.hour, w.minute, w.second, w.microsecond]

theorem micros_lt_of_dayNumber_lt {v w : Wall} (hv : v.IsValid)
    (h : Calendar.dayNumber v.year v.month v.day < Calendar.dayNumber w.year w.month w.day) : v.micros < w.micros := by
  have hday := ofDay_lt hv
  simp only [micros, dayMicros] at hday ⊢
  omega

/-- A reading that comes first in the order of its fields has fewer microseconds. -/
theorem micros_lt_of_fields_lt {v w : Wall} (hv : v.IsValid) (hw : w.IsValid) (h : v.fields < w.fields) :
    v.micros < w.micros := by
  obtain ⟨hdate, -, hminute, hsecond, hmicro⟩ := id hv
  simp only [fields, List.cons_lt_cons_iff, List.not_lt_nil, and_false, or_false] at h
  -- One case for each field of the date that can be the first to differ, and one for the clock.
  rcases h with hyear | ⟨hyear, hmonth | ⟨hmonth, hday | ⟨hday, hclock⟩⟩⟩
  · exact micros_lt_of_dayNumber_lt hv (hdate.lt_of_year_lt hw.1 hyear)
  · refine micros_lt_of_dayNumber_lt hv ?_
    rw [← hyear]
    exact hdate.lt_of_month_lt hmonth
  · refine micros_lt_of_dayNumber_lt hv ?_
    rw [← hyear, ← hmonth]
    exact hdate.lt_of_day_lt hday
  · have hofDay : v.ofDay < w.ofDay := by
      simp only [ofDay]
      omega
    rw [micros, micros, hyear, hmonth, hday]
    omega

theorem fields_lt_of_micros_lt {v w : Wall} (hv : v.IsValid) (hw : w.IsValid) (h : v.micros < w.micros) :
    v.fields < w.fields := by
  rcases lt_trichotomy v.fields w.fields with hlt | heq | hgt
  · exact hlt
  · have hsame : v = w := by
      cases v
      cases w
      simpa [fields] using heq
    rw [hsame] at h
    exact absurd h (Nat.lt_irrefl _)
  · have hback := micros_lt_of_fields_lt hw hv hgt
    omega

/-- The microseconds from the epoch to a reading, days counted by the calendar. -/
def sinceEpoch (w : Wall) : Int :=
  ((Calendar.countedDays w.year w.month w.day : Int) - Calendar.countedDays 1970 1 1) * 86400000000 + w.ofDay

theorem sinceEpoch_eq {w : Wall} (h : w.IsValid) : w.sinceEpoch = w.micros - Moment.epochMicros := by
  have hepoch : Calendar.countedDays 1970 1 1 = Calendar.epochDay := by
    have hdate : Calendar.IsDate 1970 1 1 := ⟨by decide, by decide, by decide, 31, rfl, by decide⟩
    rw [hdate.countedDays_eq, Calendar.dayNumber_epoch]
  rw [sinceEpoch, h.1.countedDays_eq, hepoch, micros]
  simp only [Moment.epochMicros, dayMicros]
  push_cast
  ring

end Wall

namespace Moment

/-- The moment of a number of microseconds since the epoch. -/
theorem ofEpoch?_told {micros : Int} {m : Moment} (h : ofEpoch? micros = some m) :
    m.offset = some 0 ∧ m.wall.IsValid ∧ m.wall.year ≤ 9999 ∧ m.wall.sinceEpoch = micros := by
  obtain ⟨hvalid, hmicros⟩ := ofEpoch?_spec h
  have hrange := (isSome_ofEpoch?_iff micros).1 (by rw [h]; rfl)
  have hoffset : m.offset = some 0 := by
    simp only [ofEpoch?] at h
    split at h
    · cases h
      rfl
    · cases h
  refine ⟨hoffset, hvalid, ?_, ?_⟩
  · refine Nat.le_of_not_lt fun hlate => ?_
    have hend : Calendar.daysBeforeYear 10000 = 3652059 := by decide
    have hmono : Calendar.daysBeforeYear 10000 ≤ Calendar.daysBeforeYear m.wall.year :=
      Calendar.daysBeforeYear_mono (by decide) hlate
    have hfirst := hvalid.1.bounds.1
    simp only [Wall.micros, Wall.dayMicros, epochMicros, Calendar.epochDay] at hmicros
    omega
  · rw [Wall.sinceEpoch_eq hvalid, hmicros]
    omega

/-- Later numbers give later moments. -/
theorem ofEpoch?_lt {i j : Int} {m m' : Moment} (h : ofEpoch? i = some m) (h' : ofEpoch? j = some m') (hlt : i < j) :
    m.wall.fields < m'.wall.fields := by
  obtain ⟨hvalid, hmicros⟩ := ofEpoch?_spec h
  obtain ⟨hvalid', hmicros'⟩ := ofEpoch?_spec h'
  exact Wall.fields_lt_of_micros_lt hvalid hvalid' (by omega)

end Moment

/-- A number of milliseconds is converted to a moment exactly if it falls into the years 1 to 9999. The moment shows a
date of the calendar and a time of day of universal time, so many milliseconds from the epoch, and a larger number gives a
later reading. A number of seconds gives what a thousand times as many milliseconds give. -/
theorem numbers_are_told_by_the_calendar :
    (∀ n : Int, (Value.int n).coerce .timestamp ≠ .null ↔ -62135596800000 ≤ n ∧ n ≤ 253402300799999) ∧
    (∀ n : Int, (Value.int n).coerce .timestamp ≠ .null → ∃ m, (Value.int n).coerce .timestamp = .moment m ∧
      m.offset = some 0 ∧ m.wall.IsValid ∧ m.wall.year ≤ 9999 ∧ m.wall.sinceEpoch = n * 1000) ∧
    (∀ (n n' : Int) (m m' : Moment), n < n' → (Value.int n).coerce .timestamp = .moment m →
      (Value.int n').coerce .timestamp = .moment m' → m.wall.fields < m'.wall.fields) ∧
    ∀ n : Int, (Value.int n).coerce .epochSeconds = (Value.int (1000 * n)).coerce .timestamp := by
  have hcoerce (n : Int) : (Value.int n).coerce .timestamp = .ofOption .moment (Moment.ofEpoch? (n * 1000)) := rfl
  have hnull (n : Int) : (Value.int n).coerce .timestamp ≠ .null ↔ (Moment.ofEpoch? (n * 1000)).isSome = true := by
    rw [hcoerce]
    cases Moment.ofEpoch? (n * 1000) <;> simp [Value.ofOption]
  have hmoment (n : Int) (m : Moment) :
      (Value.int n).coerce .timestamp = .moment m ↔ Moment.ofEpoch? (n * 1000) = some m := by
    rw [hcoerce]
    cases Moment.ofEpoch? (n * 1000) <;> simp [Value.ofOption]
  refine ⟨fun n => ?_, fun n hn => ?_, fun n n' m m' hlt hm hm' => ?_, fun n => ?_⟩
  · rw [hnull, Moment.isSome_ofEpoch?_iff]
    omega
  · obtain ⟨m, hm⟩ := Option.isSome_iff_exists.1 ((hnull n).1 hn)
    exact ⟨m, (hmoment n m).2 hm, Moment.ofEpoch?_told hm⟩
  · exact Moment.ofEpoch?_lt ((hmoment n m).1 hm) ((hmoment n' m').1 hm') (by omega)
  · have hunit : n * ((1000000 : Nat) : Int) = 1000 * n * ((1000 : Nat) : Int) := by push_cast; ring
    exact congrArg (fun i => Value.ofOption .moment (Moment.ofEpoch? i)) hunit

/-- The first millisecond of the year 1 and the last one of the year 9999. -/
theorem first_and_last_millisecond_are_told :
    let first : Wall := ⟨1, 1, 1, 0, 0, 0, 0⟩
    let last : Wall := ⟨9999, 12, 31, 23, 59, 59, 999000⟩
    (Value.int (-62135596800000)).coerce .timestamp = .moment ⟨first, some 0⟩ ∧
      (Value.int 253402300799999).coerce .timestamp = .moment ⟨last, some 0⟩ ∧
      first.sinceEpoch = -62135596800000 * 1000 ∧ last.IsValid ∧ first.fields < last.fields := by
  intro first last
  have hfirst : (Value.int (-62135596800000)).coerce .timestamp = .moment ⟨first, some 0⟩ :=
    congrArg (Value.ofOption .moment) (by decide +kernel : Moment.ofEpoch? (-62135596800000 * 1000) = some ⟨first, some 0⟩)
  have hlast : (Value.int 253402300799999).coerce .timestamp = .moment ⟨last, some 0⟩ :=
    congrArg (Value.ofOption .moment) (by decide +kernel : Moment.ofEpoch? (253402300799999 * 1000) = some ⟨last, some 0⟩)
  obtain ⟨m, hm, -, -, -, hsince⟩ := numbers_are_told_by_the_calendar.2.1 (-62135596800000) (by rw [hfirst]; simp)
  obtain ⟨m', hm', -, hvalid, -, -⟩ := numbers_are_told_by_the_calendar.2.1 253402300799999 (by rw [hlast]; simp)
  rw [hfirst] at hm
  rw [hlast] at hm'
  cases hm
  cases hm'
  exact ⟨hfirst, hlast, hsince, hvalid,
    numbers_are_told_by_the_calendar.2.2.1 (-62135596800000) 253402300799999 _ _ (by decide) hfirst hlast⟩

end FeedLedger
