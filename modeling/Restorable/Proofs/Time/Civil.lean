-- SUMMARY: The date of a day number is a calendar date with that day number.
import Restorable.Time.Civil

/-!
# Calendar days

The formulas for dates are checked in the order in which they divide a day number: centuries
of an era, years, and months from March. The last day before a March is the leap day.
-/
namespace Restorable
namespace Date

/-! ## Years of an era -/

/-- A day of an era before its last: the year of the era and the day of the year, where the
era's last century is one day longer than the others. -/
private theorem year_of_century {dayOfEra century year : Int} (hc : 0 ≤ century ∧ century ≤ 3)
    (hd : 36524 * century ≤ dayOfEra ∧ dayOfEra < 36524 * (century + 1))
    (hy : year = (dayOfEra - dayOfEra / 1460 + century) / 365) :
    year / 100 = century ∧ 0 ≤ dayOfEra - (365 * year + year / 4 - century) ∧
      dayOfEra - (365 * year + year / 4 - century) ≤ 365 := by
  refine ⟨?_, ?_, ?_⟩ <;> omega

private theorem leap_of_century {dayOfEra century year : Int} (hc : 0 ≤ century ∧ century ≤ 3)
    (hd : 36524 * century ≤ dayOfEra ∧ dayOfEra < 36524 * (century + 1))
    (hy : year = (dayOfEra - dayOfEra / 1460 + century) / 365)
    (hlast : dayOfEra - (365 * year + year / 4 - century) = 365) :
    (year + 1) % 4 = 0 ∧ (year + 1) % 100 ≠ 0 := by
  -- The next cycle of four years has begun in days but not in years, so this year ends one.
  have hcycle : dayOfEra / 1460 = year / 4 + 1 := by omega
  have hcases : year % 4 = 0 ∨ year % 4 = 1 ∨ year % 4 = 2 ∨ year % 4 = 3 := by omega
  constructor
  · rcases hcases with h | h | h | h <;> omega
  · omega

/-- The year of the era of a day, counted from March. -/
def yearOfEra (dayOfEra : Int) : Int :=
  (dayOfEra - dayOfEra / 1460 + dayOfEra / 36524 - dayOfEra / 146096) / 365

/-- The day of the year of a day of the era, counted from March. -/
def dayOfYear (dayOfEra : Int) : Int :=
  dayOfEra - (365 * yearOfEra dayOfEra + yearOfEra dayOfEra / 4 - yearOfEra dayOfEra / 100)

private theorem yearOfEra_bounds {d : Int} (h : 0 ≤ d ∧ d < 146097) :
    0 ≤ yearOfEra d ∧ yearOfEra d < 400 := by
  unfold yearOfEra
  omega

/-- The years of an era start at day 0 and are 366 days long at most, when they end in the
leap day. -/
private theorem dayOfYear_bounds {d : Int} (h : 0 ≤ d ∧ d < 146097) :
    0 ≤ dayOfYear d ∧ dayOfYear d ≤ 365 ∧
      (dayOfYear d = 365 → isLeapYear (yearOfEra d + 1) = true) := by
  have hleap : ∀ y : Int, y % 4 = 0 → (y % 100 ≠ 0 ∨ y % 400 = 0) → isLeapYear y = true := by
    intro y h4 h100
    simpa [isLeapYear, h4] using h100
  by_cases hlast : d = 146096
  · subst hlast
    decide
  · have hera : d / 146096 = 0 := by omega
    have hcentury : 0 ≤ d / 36524 ∧ d / 36524 ≤ 3 := by omega
    have hdays : 36524 * (d / 36524) ≤ d ∧ d < 36524 * (d / 36524 + 1) := by omega
    have hyear : yearOfEra d = (d - d / 1460 + d / 36524) / 365 := by
      rw [yearOfEra, hera, Int.sub_zero]
    obtain ⟨hc, hlow, hhigh⟩ := year_of_century hcentury hdays hyear
    rw [dayOfYear, hc]
    refine ⟨hlow, hhigh, ?_⟩
    intro h365
    obtain ⟨h4, h100⟩ := leap_of_century hcentury hdays hyear h365
    exact hleap _ h4 (.inl h100)

/-! ## Months -/

/-- The month from March of a day of the year. -/
def monthFromMarch (dayOfYear : Int) : Int := (5 * dayOfYear + 2) / 153

/-- The day of the month of a day of the year, from 0. -/
def dayOfMonth (dayOfYear : Int) : Int := dayOfYear - (153 * monthFromMarch dayOfYear + 2) / 5

/-- The month of the calendar of a month from March. -/
def calendarMonth (fromMarch : Int) : Nat :=
  (if fromMarch < 10 then fromMarch + 3 else fromMarch - 9).toNat

/-- Months from March have 31 and 30 days in turn, with two months of 31 days after each other
at July and December, and the last month takes what is left of the year. -/
private theorem dayOfMonth_bounds {d : Int} (h : 0 ≤ d ∧ d ≤ 365) :
    0 ≤ monthFromMarch d ∧ monthFromMarch d ≤ 11 ∧ 0 ≤ dayOfMonth d ∧ dayOfMonth d ≤ 30 ∧
      (monthFromMarch d = 1 ∨ monthFromMarch d = 3 ∨ monthFromMarch d = 6 ∨
        monthFromMarch d = 8 → dayOfMonth d ≤ 29) ∧
      (monthFromMarch d = 11 → dayOfMonth d = d - 337) := by
  unfold dayOfMonth monthFromMarch
  refine ⟨?_, ?_, ?_, ?_, ?_, ?_⟩ <;> omega

private theorem calendarMonth_bounds {m : Int} (h : 0 ≤ m ∧ m ≤ 11) :
    1 ≤ calendarMonth m ∧ calendarMonth m ≤ 12 ∧ (calendarMonth m ≤ 2 ↔ 10 ≤ m) ∧
      ((calendarMonth m + 9 : Int) % 12 = m) := by
  unfold calendarMonth
  split <;> omega

theorem daysInMonth_le (year : Int) (month : Nat) : daysInMonth year month ≤ 31 := by
  unfold daysInMonth
  split
  · split <;> decide
  · split <;> decide

/-! ## Dates -/

/-- The date of a day number, by its parts. -/
private theorem ofDayNumber_eq (n : Int) :
    let d := (n + 719468) % 146097
    let year := yearOfEra d + (n + 719468) / 146097 * 400
    let month := calendarMonth (monthFromMarch (dayOfYear d))
    ofDayNumber n = ⟨if month ≤ 2 then year + 1 else year, month,
      (dayOfMonth (dayOfYear d) + 1).toNat⟩ := rfl

/-- The date of a day number has that day number. -/
@[simp] theorem dayNumber_ofDayNumber (n : Int) : (ofDayNumber n).dayNumber = n := by
  have hd : 0 ≤ (n + 719468) % 146097 ∧ (n + 719468) % 146097 < 146097 := by omega
  have hn : (n + 719468) / 146097 * 146097 + (n + 719468) % 146097 = n + 719468 := by omega
  rw [ofDayNumber_eq]
  generalize (n + 719468) / 146097 = era at hn ⊢
  generalize (n + 719468) % 146097 = d at hd hn ⊢
  obtain ⟨hlow, hhigh⟩ := yearOfEra_bounds hd
  obtain ⟨hfirst, hlast, -⟩ := dayOfYear_bounds hd
  obtain ⟨hm₀, hm₁₁, hday₀, -⟩ := dayOfMonth_bounds ⟨hfirst, hlast⟩
  obtain ⟨-, -, -, hmarch⟩ := calendarMonth_bounds ⟨hm₀, hm₁₁⟩
  have hera : (yearOfEra d + era * 400) / 400 = era := by omega
  have hyear : (yearOfEra d + era * 400) % 400 = yearOfEra d := by omega
  have hcount : ((dayOfMonth (dayOfYear d) + 1).toNat : Int) = dayOfMonth (dayOfYear d) + 1 :=
    Int.toNat_of_nonneg (by omega)
  have hparts : dayOfMonth (dayOfYear d) =
      dayOfYear d - (153 * monthFromMarch (dayOfYear d) + 2) / 5 := rfl
  have hdays : dayOfYear d = d - (365 * yearOfEra d + yearOfEra d / 4 - yearOfEra d / 100) := rfl
  have hback : ∀ (month : Nat) (year : Int),
      (if month ≤ 2 then (if month ≤ 2 then year + 1 else year) - 1
        else if month ≤ 2 then year + 1 else year) = year := by
    intro month year
    by_cases h : month ≤ 2 <;> simp [h]
  simp only [dayNumber, hback, hera, hyear, hmarch, hcount]
  omega

/-- A day from 0 of a month from March that is in the month: February has a 29th in leap years. -/
private theorem le_daysInMonth {year m day : Int} (hm : 0 ≤ m ∧ m ≤ 11) (hday : 0 ≤ day ∧ day ≤ 30)
    (hshort : m = 1 ∨ m = 3 ∨ m = 6 ∨ m = 8 → day ≤ 29)
    (hfebruary : m = 11 → day ≤ 27 ∨ day = 28 ∧ isLeapYear year = true) :
    (day + 1).toNat ≤ daysInMonth year (calendarMonth m) := by
  have hmonth : calendarMonth m = 2 ↔ m = 11 := by
    unfold calendarMonth
    split <;> omega
  have hthirty : (calendarMonth m = 4 ∨ calendarMonth m = 6 ∨ calendarMonth m = 9 ∨
      calendarMonth m = 11) ↔ (m = 1 ∨ m = 3 ∨ m = 6 ∨ m = 8) := by
    unfold calendarMonth
    split <;> omega
  simp only [daysInMonth, hmonth, hthirty]
  by_cases h : m = 11
  · rw [if_pos h]
    rcases hfebruary h with h₂₇ | ⟨h₂₈, hleap⟩
    · split <;> omega
    · rw [if_pos hleap]
      omega
  · rw [if_neg h]
    split
    · have := hshort ‹_›
      omega
    · omega

@[simp] theorem isLeapYear_add_eras (year era : Int) :
    isLeapYear (year + era * 400) = isLeapYear year := by
  have h₄ : (year + era * 400) % 4 = year % 4 := by omega
  have h₁₀₀ : (year + era * 400) % 100 = year % 100 := by omega
  have h₄₀₀ : (year + era * 400) % 400 = year % 400 := by omega
  simp only [isLeapYear, h₄, h₁₀₀, h₄₀₀]

/-- The date of a day number is a date of the calendar. -/
@[simp] theorem isValid_ofDayNumber (n : Int) : (ofDayNumber n).isValid = true := by
  have hd : 0 ≤ (n + 719468) % 146097 ∧ (n + 719468) % 146097 < 146097 := by omega
  rw [ofDayNumber_eq]
  generalize (n + 719468) / 146097 = era
  generalize (n + 719468) % 146097 = d at hd ⊢
  obtain ⟨hfirst, hlast, hleap⟩ := dayOfYear_bounds hd
  obtain ⟨hm₀, hm₁₁, hday₀, hday₃₀, hshort, hfebruary⟩ := dayOfMonth_bounds ⟨hfirst, hlast⟩
  obtain ⟨hmonth₁, hmonth₁₂, hmarch, -⟩ := calendarMonth_bounds ⟨hm₀, hm₁₁⟩
  have hday : (dayOfMonth (dayOfYear d) + 1).toNat ≤ daysInMonth
      (if calendarMonth (monthFromMarch (dayOfYear d)) ≤ 2 then yearOfEra d + era * 400 + 1
        else yearOfEra d + era * 400) (calendarMonth (monthFromMarch (dayOfYear d))) := by
    refine le_daysInMonth ⟨hm₀, hm₁₁⟩ ⟨hday₀, hday₃₀⟩ hshort ?_
    intro h₁₁
    rw [if_pos (hmarch.mpr (by omega)), Int.add_right_comm, isLeapYear_add_eras, hfebruary h₁₁]
    rcases Int.lt_or_eq_of_le hlast with h | h
    · exact .inl (by omega)
    · exact .inr ⟨by omega, hleap h⟩
  simp only [isValid, Bool.and_eq_true, decide_eq_true_eq]
  exact ⟨⟨⟨hmonth₁, hmonth₁₂⟩, by omega⟩, hday⟩

end Date
end Restorable
