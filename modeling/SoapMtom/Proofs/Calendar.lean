import SoapMtom.Timestamp

/-!
# Days and dates

Four hundred years from March to March are four centuries, each of them a row of spans of four years,
and the day that is left over in a span ends its last year. Counting days in that way gives the date
of a day, and counting back gives the day. Main statements:

> `yearOfEra_eq`: the year and its first day, for every place of a day in its era.
>
> `dayOfDate_dateOfDay`, `exists?_dateOfDay`: every day has a date, which is in the calendar and is
> the date of that day only.
-/

namespace SoapMtom.Calendar

/-! ## Years of an era -/

/-- The year of the era that a day of it falls into, as `dateOfDay` reckons it. -/
def yearOfEra (dayOfEra : Nat) : Nat :=
  (dayOfEra - dayOfEra / 1460 + dayOfEra / 36524 - dayOfEra / 146096) / 365

/-- The first day of a year of the era. -/
def startOfYear (yearOfEra : Nat) : Nat := 365 * yearOfEra + yearOfEra / 4 - yearOfEra / 100

/-- A day of the era by centuries, spans of four years, years and days. -/
theorem exists_place {dayOfEra : Nat} (h : dayOfEra < 146097) :
    ∃ century span year day, dayOfEra = 36524 * century + 1461 * span + 365 * year + day ∧
      century ≤ 3 ∧ span ≤ 24 ∧ year ≤ 3 ∧ day ≤ 365 ∧
      (day = 365 → year = 3 ∧ (span = 24 → century = 3)) := by
  -- the last day belongs to the fourth century, and the last one of a span to its fourth year
  obtain ⟨century, rest, hcentury, hlow, hrest⟩ : ∃ century rest,
      dayOfEra = 36524 * century + rest ∧ century ≤ 3 ∧
        (rest < 36524 ∨ rest = 36524 ∧ century = 3) := by
    by_cases hlast : dayOfEra = 146096
    · exact ⟨3, 36524, by omega, by omega, by omega⟩
    · exact ⟨dayOfEra / 36524, dayOfEra % 36524, by omega, by omega, by omega⟩
  obtain ⟨year, day, hyear, hle, hday⟩ : ∃ year day, rest % 1461 = 365 * year + day ∧ year ≤ 3 ∧
      (day < 365 ∨ day = 365 ∧ year = 3) := by
    by_cases hlast : rest % 1461 = 1460
    · exact ⟨3, 365, by omega, by omega, by omega⟩
    · exact ⟨rest % 1461 / 365, rest % 1461 % 365, by omega, by omega, by omega⟩
  exact ⟨century, rest / 1461, year, day, by omega, by omega, by omega, by omega, by omega,
    by omega⟩

/-- At that place, the year and its first day are what is reckoned. -/
theorem yearOfEra_eq {century span year day : Nat} (hcentury : century ≤ 3) (hspan : span ≤ 24)
    (hyear : year ≤ 3) (hday : day ≤ 365)
    (hleap : day = 365 → year = 3 ∧ (span = 24 → century = 3)) :
    yearOfEra (36524 * century + 1461 * span + 365 * year + day) =
        100 * century + 4 * span + year ∧
      startOfYear (100 * century + 4 * span + year) =
        36524 * century + 1461 * span + 365 * year := by
  constructor
  · unfold yearOfEra
    generalize hdayOfEra : 36524 * century + 1461 * span + 365 * year + day = dayOfEra
    by_cases hlast : dayOfEra = 146096
    · subst hlast
      omega
    · -- the leap days before the day, by spans and by centuries
      have hspans : dayOfEra / 1460 = 25 * century + span ∨
          dayOfEra / 1460 = 25 * century + span + 1 ∧ year = 3 ∧ 269 ≤ day := by omega
      have hcenturies : dayOfEra / 36524 = century := by omega
      have hera : dayOfEra / 146096 = 0 := by omega
      rw [hcenturies, hera]
      omega
  · unfold startOfYear
    omega

/-- A day of the era by years and days, and when its year is the longer one. -/
theorem exists_dayOfYear {dayOfEra : Nat} (h : dayOfEra < 146097) :
    ∃ dayOfYear, dayOfEra = startOfYear (yearOfEra dayOfEra) + dayOfYear ∧
      yearOfEra dayOfEra ≤ 399 ∧ dayOfYear < 366 ∧
      (dayOfYear = 365 → let next := yearOfEra dayOfEra + 1
        next % 4 = 0 ∧ (next % 100 ≠ 0 ∨ next % 400 = 0)) := by
  obtain ⟨century, span, year, day, rfl, hcentury, hspan, hyear, hday, hleap⟩ := exists_place h
  obtain ⟨hreckoned, hstart⟩ := yearOfEra_eq hcentury hspan hyear hday hleap
  rw [hreckoned, hstart]
  refine ⟨day, rfl, by omega, by omega, fun hlast => ?_⟩
  obtain ⟨rfl, hfourth⟩ := hleap hlast
  clear hreckoned hstart hleap h
  refine ⟨by omega, ?_⟩
  by_cases hend : span = 24
  · have := hfourth hend
    omega
  · omega

/-! ## Months and days of a year -/

/-- The month of a day of the year, counted from March. -/
def monthFromMarch (dayOfYear : Nat) : Nat := (5 * dayOfYear + 2) / 153

/-- The month of a day of the year, counted from January. -/
def monthOfYear (dayOfYear : Nat) : Nat :=
  if monthFromMarch dayOfYear < 10 then monthFromMarch dayOfYear + 3
  else monthFromMarch dayOfYear - 9

/-- The day of the month of a day of the year. -/
def dayOfMonth (dayOfYear : Nat) : Nat := dayOfYear - (153 * monthFromMarch dayOfYear + 2) / 5 + 1

/-- Month and day of the month give back the day of the year. -/
theorem dayOfYear_eq : ∀ dayOfYear < 366,
    let month := monthOfYear dayOfYear
    let fromMarch := if 2 < month then month - 3 else month + 9
    (153 * fromMarch + 2) / 5 + dayOfMonth dayOfYear - 1 = dayOfYear := by
  decide +kernel

/-- The month has the day; the last day of the year is there in leap years only. -/
theorem dayOfMonth_le : ∀ dayOfYear < 366,
    let month := monthOfYear dayOfYear
    month ≤ 12 ∧ 1 ≤ dayOfMonth dayOfYear ∧ dayOfMonth dayOfYear ≤ 31 ∧
      dayOfMonth dayOfYear ≤ monthLength 0 month ∧
      (dayOfYear ≠ 365 → dayOfMonth dayOfYear ≤ monthLength 1 month) := by
  decide +kernel

/-- The last day of the year is in February. -/
theorem monthOfYear_last : monthOfYear 365 = 2 := rfl

/-- How long a month is depends on whether the year is a leap year. -/
theorem monthLength_eq (year : Int) (month : Nat) :
    monthLength year month = monthLength (if isLeap year then 0 else 1) month := by
  have hleap : isLeap (if isLeap year then 0 else 1) = isLeap year := by
    cases isLeap year <;> decide
  unfold monthLength
  rw [hleap]

/-! ## Dates of days -/

/-- What the date of a day is made of. -/
theorem exists_dateOfDay (day : Int) :
    ∃ (era : Int) (year dayOfYear : Nat), year ≤ 399 ∧ dayOfYear < 366 ∧
      (dayOfYear = 365 → isLeap (year + era * 400 + 1) = true) ∧
      day = era * daysPerEra + (startOfYear year + dayOfYear : Nat) - 719468 ∧
      dateOfDay day =
        { year := year + era * 400 + (if monthOfYear dayOfYear ≤ 2 then 1 else 0)
          month := monthOfYear dayOfYear
          day := dayOfMonth dayOfYear } := by
  let era := (day + 719468) / daysPerEra
  let dayOfEra := ((day + 719468) % daysPerEra).toNat
  have hday : day + 719468 = era * 146097 + dayOfEra ∧ dayOfEra < 146097 := by
    have hera : era = (day + 719468) / 146097 := rfl
    have hdayOfEra : dayOfEra = ((day + 719468) % 146097).toNat := rfl
    omega
  obtain ⟨dayOfYear, hplace, hyear, hlt, hleap⟩ := exists_dayOfYear hday.2
  have hdayOfYear : dayOfEra - startOfYear (yearOfEra dayOfEra) = dayOfYear :=
    Nat.sub_eq_of_eq_add' hplace
  refine ⟨era, yearOfEra dayOfEra, dayOfYear, hyear, hlt, fun hlast => ?_, ?_, ?_⟩
  · obtain ⟨hfour, hhundred⟩ := hleap hlast
    generalize yearOfEra dayOfEra = year at hfour hhundred ⊢
    unfold isLeap
    simp only [Bool.and_eq_true, Bool.or_eq_true, decide_eq_true_eq]
    clear hday hplace hyear hdayOfYear
    omega
  · rw [← hplace]
    show day = era * 146097 + dayOfEra - 719468
    rw [← hday.1]
    exact (Int.add_sub_cancel day 719468).symm
  · rw [← hdayOfYear]
    rfl

/-- The date of a day is the date of that day only. -/
theorem dayOfDate_dateOfDay (day : Int) : dayOfDate (dateOfDay day) = day := by
  obtain ⟨era, year, dayOfYear, hyear, hlt, -, hday, hdate⟩ := exists_dateOfDay day
  have hback := dayOfYear_eq dayOfYear hlt
  rw [hdate, hday]
  unfold dayOfDate
  dsimp only at hback ⊢
  -- the year from March that the date falls into is the one of the day
  have hmarch : (if monthOfYear dayOfYear ≤ 2 then
      (year : Int) + era * 400 + (if monthOfYear dayOfYear ≤ 2 then 1 else 0) - 1
      else year + era * 400 + (if monthOfYear dayOfYear ≤ 2 then 1 else 0)) =
        year + era * 400 := by
    split <;> omega
  have hera : ((year : Int) + era * 400) / 400 = era := by omega
  have hofEra : (((year : Int) + era * 400) % 400).toNat = year := by omega
  rw [hmarch, hera, hofEra, hback, startOfYear, Nat.mul_comm 365]

/-- The date of a day is in the calendar. -/
theorem exists?_dateOfDay (day : Int) : (dateOfDay day).exists? = true := by
  obtain ⟨era, year, dayOfYear, -, hlt, hleap, -, hdate⟩ := exists_dateOfDay day
  obtain ⟨-, hfirst, -, hlong, hshort⟩ := dayOfMonth_le dayOfYear hlt
  rw [hdate, Date.exists?, Bool.and_eq_true, decide_eq_true_eq, decide_eq_true_eq]
  refine ⟨hfirst, ?_⟩
  dsimp only
  rw [monthLength_eq]
  by_cases hlast : dayOfYear = 365
  · subst hlast
    rw [monthOfYear_last, if_pos (Nat.le_refl 2), if_pos (hleap rfl)]
    exact hlong
  · -- on any other day it does not matter whether the year is a leap year
    have heither : ∀ leap : Bool,
        dayOfMonth dayOfYear ≤ monthLength (if leap then 0 else 1) (monthOfYear dayOfYear) := by
      intro leap
      cases leap with
      | true => exact hlong
      | false => exact hshort hlast
    exact heither _

/-- Months and days of dates have at most two digits. -/
theorem dateOfDay_lt (day : Int) : (dateOfDay day).month < 100 ∧ (dateOfDay day).day < 100 := by
  obtain ⟨era, year, dayOfYear, -, hlt, -, -, hdate⟩ := exists_dateOfDay day
  obtain ⟨hmonth, -, hday, -⟩ := dayOfMonth_le dayOfYear hlt
  rw [hdate]
  exact ⟨Nat.lt_of_le_of_lt hmonth (by omega), Nat.lt_of_le_of_lt hday (by omega)⟩

end SoapMtom.Calendar
