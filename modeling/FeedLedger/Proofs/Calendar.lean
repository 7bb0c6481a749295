import Mathlib.Data.Nat.Init
import FeedLedger.Calendar.Moment

namespace FeedLedger

namespace Calendar

def yearLength (year : Nat) : Nat := if isLeap year then 366 else 365

theorem daysIn_monthLengths (year : Nat) : daysIn (monthLengths year) = yearLength year := by
  unfold monthLengths yearLength
  split <;> rfl

theorem daysBeforeYear_succ (y : Nat) : daysBeforeYear (y + 2) = daysBeforeYear (y + 1) + yearLength (y + 1) := by
  have h4 : (y + 1) / 4 = y / 4 + if 4 ∣ y + 1 then 1 else 0 := Nat.succ_div
  have h100 : (y + 1) / 100 = y / 100 + if 100 ∣ y + 1 then 1 else 0 := Nat.succ_div
  have h400 : (y + 1) / 400 = y / 400 + if 400 ∣ y + 1 then 1 else 0 := Nat.succ_div
  have hless : y / 100 ≤ y := Nat.div_le_self _ _
  have hfour : 100 ∣ y + 1 → 4 ∣ y + 1 := fun h => Nat.dvd_trans (by decide) h
  have hhundred : 400 ∣ y + 1 → 100 ∣ y + 1 := fun h => Nat.dvd_trans (by decide) h
  have hleap : yearLength (y + 1) = if 4 ∣ y + 1 ∧ (¬100 ∣ y + 1 ∨ 400 ∣ y + 1) then 366 else 365 := by
    simp only [yearLength, isLeap_iff, Nat.dvd_iff_mod_eq_zero, ne_eq]
  rw [daysBeforeYear, daysBeforeYear, hleap, Nat.add_sub_cancel, show y + 2 - 1 = y + 1 from rfl, h4, h100, h400]
  generalize y / 4 = q4 at *
  generalize y / 100 = q100 at *
  generalize y / 400 = q400 at *
  by_cases d4 : 4 ∣ y + 1 <;> by_cases d100 : 100 ∣ y + 1 <;> by_cases d400 : 400 ∣ y + 1 <;>
    simp [d4, d100, d400] at hfour hhundred ⊢ <;> omega

theorem daysBeforeYear_mono {a b : Nat} (ha : 1 ≤ a) (hab : a ≤ b) : daysBeforeYear a ≤ daysBeforeYear b := by
  induction b, hab using Nat.le_induction with
  | base => exact Nat.le_refl _
  | succ b hb ih =>
    obtain ⟨y, rfl⟩ := Nat.exists_eq_add_of_le' (Nat.le_trans ha hb)
    rw [daysBeforeYear_succ]
    exact Nat.le_trans ih (Nat.le_add_right _ _)

/-- The year of a place in the spans of 400, 100, 4 and 1 years. -/
theorem daysBeforeYear_parts (q : Nat) {h f o : Nat} (hh : h ≤ 3) (hf : f ≤ 24) (ho : o ≤ 3) :
    daysBeforeYear (400 * q + 100 * h + 4 * f + o + 1) = 146097 * q + 36524 * h + 1461 * f + 365 * o := by
  have h4 : (400 * q + 100 * h + 4 * f + o) / 4 = 100 * q + 25 * h + f := by omega
  have h100 : (400 * q + 100 * h + 4 * f + o) / 100 = 4 * q + h := by omega
  have h400 : (400 * q + 100 * h + 4 * f + o) / 400 = q := by omega
  rw [daysBeforeYear, Nat.add_sub_cancel, h4, h100, h400]
  omega

theorem yearLength_parts (q : Nat) {h f o : Nat} (hh : h ≤ 3) (hf : f ≤ 24) (ho : o ≤ 3) :
    yearLength (400 * q + 100 * h + 4 * f + o + 1) = if o = 3 ∧ (f < 24 ∨ h = 3) then 366 else 365 := by
  have h4 : (400 * q + 100 * h + 4 * f + o + 1) % 4 = 0 ↔ o = 3 := by omega
  have h100 : (400 * q + 100 * h + 4 * f + o + 1) % 100 = 0 ↔ f = 24 ∧ o = 3 := by omega
  have h400 : (400 * q + 100 * h + 4 * f + o + 1) % 400 = 0 ↔ h = 3 ∧ f = 24 ∧ o = 3 := by omega
  simp only [yearLength, isLeap_iff, h4, ne_eq, h100, h400]
  congr 1
  apply propext
  omega

/-- A day number is that of a day in the year it falls in. -/
theorem yearAndDay_spec (n : Nat) :
    1 ≤ (yearAndDay n).1 ∧ daysBeforeYear (yearAndDay n).1 + (yearAndDay n).2 = n ∧
      (yearAndDay n).2 < yearLength (yearAndDay n).1 := by
  have hera : n % 146097 < 146097 := Nat.mod_lt _ (by decide)
  have hn : 146097 * (n / 146097) + n % 146097 = n := Nat.div_add_mod _ _
  simp only [yearAndDay]
  generalize n / 146097 = q at *
  generalize n % 146097 = inEra at *
  -- each part gets a name and its bounds, so that no division is left in the sum of the days
  obtain ⟨h, hh⟩ : ∃ h, min (inEra / 36524) 3 = h := ⟨_, rfl⟩
  obtain ⟨inHundred, hH⟩ : ∃ d, inEra - 36524 * h = d := ⟨_, rfl⟩
  obtain ⟨f, hf⟩ : ∃ f, inHundred / 1461 = f := ⟨_, rfl⟩
  obtain ⟨inFour, hF⟩ : ∃ d, inHundred % 1461 = d := ⟨_, rfl⟩
  obtain ⟨o, ho⟩ : ∃ o, min (inFour / 365) 3 = o := ⟨_, rfl⟩
  rw [hh, hH, hf, hF, ho]
  have b1 : h ≤ 3 ∧ inEra = 36524 * h + inHundred ∧ (inHundred < 36524 ∨ h = 3 ∧ inHundred = 36524) := by omega
  have b2 : f ≤ 24 ∧ inHundred = 1461 * f + inFour ∧ inFour < 1461 := by omega
  have b3 : o ≤ 3 ∧ 365 * o ≤ inFour ∧ (inFour < 365 * o + 365 ∨ o = 3 ∧ inFour = 1460) := by omega
  rw [daysBeforeYear_parts q b1.1 b2.1 b3.1, yearLength_parts q b1.1 b2.1 b3.1]
  clear hh hH hf hF ho
  refine ⟨by omega, by omega, ?_⟩
  split <;> omega

/-- A walk through months ends in the month that a day falls in. -/
theorem monthAndDay_spec {lengths : List Nat} (month : Nat) {n : Nat} (h : n < daysIn lengths) :
    ∃ i d length, monthAndDay month n lengths = (month + i, d + 1) ∧ lengths[i]? = some length ∧ d < length ∧
      daysIn (lengths.take i) + d = n := by
  induction lengths generalizing month n with
  | nil => cases h
  | cons length rest ih =>
    rw [monthAndDay]
    by_cases hn : n < length
    · exact ⟨0, n, length, by rw [if_pos hn]; rfl, rfl, hn, Nat.zero_add n⟩
    · have hrest : n - length < daysIn rest := by
        rw [daysIn] at h
        omega
      obtain ⟨i, d, later, hwalk, hlater, hd, hdays⟩ := ih (month + 1) hrest
      refine ⟨i + 1, d, later, ?_, hlater, hd, ?_⟩
      · rw [if_neg hn, hwalk, Nat.add_right_comm, Nat.add_assoc]
      · rw [List.take_succ_cons, daysIn]
        omega

/-- The date of a day number is one of the calendar, and has that number. -/
theorem dateOfDay_spec (n : Nat) :
    IsDate (dateOfDay n).1 (dateOfDay n).2.1 (dateOfDay n).2.2 ∧
      dayNumber (dateOfDay n).1 (dateOfDay n).2.1 (dateOfDay n).2.2 = n := by
  obtain ⟨hyear, hday, hin⟩ := yearAndDay_spec n
  rw [← daysIn_monthLengths] at hin
  obtain ⟨i, d, length, hwalk, hlength, hd, hdays⟩ := monthAndDay_spec 1 hin
  have hmonth : 1 + i - 1 = i := Nat.add_sub_cancel_left 1 i
  simp only [dateOfDay, hwalk, IsDate, dayNumber, hmonth, Nat.add_sub_cancel]
  exact ⟨⟨hyear, Nat.le_add_right 1 i, Nat.le_add_left 1 d, length, hlength, hd⟩, by omega⟩

theorem daysIn_take_lt {lengths : List Nat} {i d length : Nat} (h : lengths[i]? = some length) (hd : d < length) :
    daysIn (lengths.take i) + d < daysIn lengths := by
  induction lengths generalizing i with
  | nil => cases h
  | cons first rest ih =>
    cases i with
    | zero =>
      cases h
      simp only [List.take_zero, daysIn]
      omega
    | succ i =>
      have hrest := ih (i := i) h
      rw [List.take_succ_cons, daysIn, daysIn]
      omega

/-- A number of days leads to one place in months of given lengths. -/
theorem daysIn_take_inj {lengths : List Nat} {i j d e a b : Nat} (ha : lengths[i]? = some a) (hd : d < a)
    (hb : lengths[j]? = some b) (he : e < b)
    (h : daysIn (lengths.take i) + d = daysIn (lengths.take j) + e) : i = j ∧ d = e := by
  induction lengths generalizing i j with
  | nil => cases ha
  | cons first rest ih =>
    cases i with
    | zero =>
      cases ha
      cases j with
      | zero => exact ⟨rfl, by simpa [daysIn] using h⟩
      | succ j =>
        simp only [List.take_zero, List.take_succ_cons, daysIn] at h
        omega
    | succ i =>
      cases j with
      | zero =>
        cases hb
        simp only [List.take_zero, List.take_succ_cons, daysIn] at h
        omega
      | succ j =>
        simp only [List.take_succ_cons, daysIn] at h
        obtain ⟨rfl, rfl⟩ := ih (i := i) (j := j) ha hb (by omega)
        exact ⟨rfl, rfl⟩

namespace IsDate

variable {year month day year' month' day' : Nat}

/-- The days of a year come before those of the next. -/
theorem bounds (h : IsDate year month day) :
    daysBeforeYear year ≤ dayNumber year month day ∧ dayNumber year month day < daysBeforeYear (year + 1) := by
  obtain ⟨hyear, -, hday, length, hlength, hd⟩ := h
  have hin : daysIn ((monthLengths year).take (month - 1)) + (day - 1) < yearLength year := by
    rw [← daysIn_monthLengths]
    exact daysIn_take_lt hlength (by omega)
  obtain ⟨y, rfl⟩ := Nat.exists_eq_add_of_le' hyear
  rw [daysBeforeYear_succ, dayNumber]
  omega

/-- Dates of the same number are of the same year. -/
theorem year_le (h : IsDate year month day) (h' : IsDate year' month' day')
    (heq : dayNumber year month day = dayNumber year' month' day') : year ≤ year' := by
  refine Nat.le_of_not_lt fun hlt => ?_
  have hmono := daysBeforeYear_mono (Nat.le_add_left 1 year') hlt
  have hlow := h.bounds.1
  have hhigh := h'.bounds.2
  omega

theorem eq_of_dayNumber_eq (h : IsDate year month day) (h' : IsDate year' month' day')
    (heq : dayNumber year month day = dayNumber year' month' day') : year = year' ∧ month = month' ∧ day = day' := by
  obtain rfl : year = year' := Nat.le_antisymm (h.year_le h' heq) (h'.year_le h heq.symm)
  obtain ⟨-, hmonth, hday, a, ha, hd⟩ := h
  obtain ⟨-, hmonth', hday', b, hb, he⟩ := h'
  simp only [dayNumber] at heq
  have hin : daysIn ((monthLengths year).take (month - 1)) + (day - 1) =
      daysIn ((monthLengths year).take (month' - 1)) + (day' - 1) := by omega
  obtain ⟨hm, hd⟩ := daysIn_take_inj ha (by omega) hb (by omega) hin
  exact ⟨rfl, by omega, by omega⟩

end IsDate

end Calendar

namespace Wall

theorem ofDay_lt {w : Wall} (h : w.IsValid) : w.ofDay < dayMicros := by
  obtain ⟨-, hhour, hminute, hsecond, hmicro⟩ := h
  simp only [ofDay, dayMicros]
  omega

/-- A number of microseconds is that of the reading made of it. -/
theorem ofMicros_spec (n : Nat) : (ofMicros n).IsValid ∧ (ofMicros n).micros = n := by
  obtain ⟨hdate, hnumber⟩ := Calendar.dateOfDay_spec (n / dayMicros)
  have hday : n % dayMicros < dayMicros := Nat.mod_lt _ (by decide)
  have hsplit : n / dayMicros * dayMicros + n % dayMicros = n := Nat.div_add_mod' n dayMicros
  simp only [IsValid, micros, ofMicros, ofDay, hnumber]
  simp only [dayMicros] at hday hsplit ⊢
  exact ⟨⟨hdate, by omega, by omega, by omega, by omega⟩, by omega⟩

/-- Readings are told apart by their microseconds. -/
theorem eq_of_micros_eq {v w : Wall} (hv : v.IsValid) (hw : w.IsValid) (h : v.micros = w.micros) : v = w := by
  have hday := ofDay_lt hv
  have hday' := ofDay_lt hw
  simp only [micros, dayMicros] at h hday hday'
  have hnumber : Calendar.dayNumber v.year v.month v.day = Calendar.dayNumber w.year w.month w.day := by omega
  have hclock : v.ofDay = w.ofDay := by omega
  obtain ⟨hdate, -, hminute, hsecond, hmicro⟩ := hv
  obtain ⟨hdate', -, hminute', hsecond', hmicro'⟩ := hw
  obtain ⟨hyear, hmonth, hdays⟩ := hdate.eq_of_dayNumber_eq hdate' hnumber
  simp only [ofDay] at hclock
  cases v
  cases w
  simp only at *
  simp only [mk.injEq, hyear, hmonth, hdays, true_and]
  omega

end Wall

namespace Moment

theorem ofEpoch?_spec {micros : Int} {m : Moment} (h : ofEpoch? micros = some m) :
    m.wall.IsValid ∧ (m.wall.micros : Int) = micros + epochMicros := by
  simp only [ofEpoch?] at h
  split at h
  case isFalse => cases h
  case isTrue hrange =>
    cases h
    obtain ⟨hvalid, hmicros⟩ := Wall.ofMicros_spec (micros + epochMicros).toNat
    exact ⟨hvalid, by rw [hmicros, Int.toNat_of_nonneg hrange.1]⟩

/-- The microseconds from the start of the year 1 to the end of the year 9999, counted from the epoch. -/
theorem isSome_ofEpoch?_iff (micros : Int) : (ofEpoch? micros).isSome = true ↔
    -62135596800000000 ≤ micros ∧ micros < 253402300800000000 := by
  have hrange : (ofEpoch? micros).isSome = true ↔
      0 ≤ micros + epochMicros ∧ micros + epochMicros < Calendar.endDay * Wall.dayMicros := by
    simp only [ofEpoch?]
    split <;> simp [*]
  simp only [hrange, epochMicros, Calendar.epochDay, Calendar.endDay, Wall.dayMicros]
  omega

end Moment

end FeedLedger
