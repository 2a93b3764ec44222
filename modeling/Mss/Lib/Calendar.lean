import Mathlib.Algebra.Order.Group.Int
import Mathlib.Order.Monotone.Basic
import Mathlib.Tactic.IntervalCases
import Mathlib.Tactic.Ring

/-!
# The Gregorian calendar

Days are counted from 1970-01-01, and months from January of the year 0.

* `daysInMonth`: how long a month is; `monthStart`: its first day.
* **`monthStart_succ`**: each month starts when the one before it is over.
* `monthIndex`: the month of a day; **`monthIndex_spec`**: it has started, and is not over.
* `Date`, `dateOf`: the date of a day; **`lt_iff_date`**: days are in the order of their dates.
-/

namespace Calendar

/-! ## Months -/

/-- A leap year. -/
def IsLeap (year : ℤ) : Prop := year % 4 = 0 ∧ (year % 100 ≠ 0 ∨ year % 400 = 0)

instance (year : ℤ) : Decidable (IsLeap year) := inferInstanceAs (Decidable (_ ∧ _))

/-- How many days a month has. -/
def daysInMonth (year month : ℤ) : ℤ :=
  if month = 2 then if IsLeap year then 29 else 28
  else if month = 4 ∨ month = 6 ∨ month = 9 ∨ month = 11 then 30
  else 31

theorem daysInMonth_pos (year month : ℤ) : 0 < daysInMonth year month := by
  unfold daysInMonth
  split_ifs <;> omega

theorem daysInMonth_le (year month : ℤ) : daysInMonth year month ≤ 31 := by
  unfold daysInMonth
  split_ifs <;> omega

theorem daysInMonth_february_le (year : ℤ) : daysInMonth year 2 ≤ 29 := by
  unfold daysInMonth
  split_ifs <;> omega

/-- The days before a year that starts in March, so that a leap day is its last. -/
def yearStart (year : ℤ) : ℤ := 365 * year + year / 4 - year / 100 + year / 400

/-- The days of such a year before one of its months, the first of which is 0. -/
def monthOffset (month : ℤ) : ℤ := (153 * month + 2) / 5

/-- The first day of a month. -/
def monthStart (index : ℤ) : ℤ :=
  yearStart ((index - 2) / 12) + monthOffset ((index - 2) % 12) - 719468

theorem monthStart_of_march {year month : ℤ} (hmonth : 0 ≤ month) (hmonth' : month < 12) :
    monthStart (12 * year + month + 2) = yearStart year + monthOffset month - 719468 := by
  have hyear : (12 * year + month + 2 - 2) / 12 = year := by omega
  have hrest : (12 * year + month + 2 - 2) % 12 = month := by omega
  rw [monthStart, hyear, hrest]

theorem monthStart_next {year month : ℤ} (hmonth : 0 ≤ month) (hless : month < 11) :
    monthStart (12 * year + month + 2 + 1) = yearStart year + monthOffset (month + 1) - 719468 := by
  rw [← monthStart_of_march (by omega) (by omega)]
  congr 1
  omega

theorem monthStart_march (year : ℤ) :
    monthStart (12 * year + 11 + 2 + 1) = yearStart (year + 1) - 719468 := by
  rw [show 12 * year + 11 + 2 + 1 = 12 * (year + 1) + 0 + 2 by ring,
    monthStart_of_march le_rfl (by omega)]
  simp [monthOffset]

theorem yearStart_succ (year : ℤ) :
    yearStart (year + 1) = yearStart year + 337 + daysInMonth (year + 1) 2 := by
  unfold yearStart daysInMonth IsLeap
  split_ifs <;> omega

/-- **Each month starts** when the one before it is over. -/
theorem monthStart_succ (index : ℤ) :
    monthStart (index + 1) = monthStart index + daysInMonth (index / 12) (index % 12 + 1) := by
  obtain ⟨year, month, hmonth, hmonth', rfl⟩ :
      ∃ year month : ℤ, 0 ≤ month ∧ month < 12 ∧ index = 12 * year + month + 2 :=
    ⟨(index - 2) / 12, (index - 2) % 12, by omega, by omega, by omega⟩
  rw [monthStart_of_march hmonth hmonth']
  rcases lt_or_ge month 11 with hless | hlast
  · have hlength : monthOffset (month + 1) = monthOffset month +
        daysInMonth ((12 * year + month + 2) / 12) ((12 * year + month + 2) % 12 + 1) := by
      unfold monthOffset daysInMonth
      rw [if_neg (by omega)]
      interval_cases month <;> split_ifs <;> omega
    rw [monthStart_next hmonth hless, hlength]
    omega
  · -- February, at the end of the year
    obtain rfl : month = 11 := by omega
    have hyear : (12 * year + 11 + 2) / 12 = year + 1 := by omega
    have hrest : (12 * year + 11 + 2) % 12 + 1 = 2 := by omega
    have hoffset : monthOffset 11 = 337 := by decide
    rw [monthStart_march, hyear, hrest, yearStart_succ, hoffset]
    omega

example : monthStart (12 * 1970) = 0 := by decide

theorem monthStart_lt_iff {a b : ℤ} : monthStart a < monthStart b ↔ a < b := by
  have hmono : StrictMono monthStart := by
    refine strictMono_int_of_lt_succ fun index => ?_
    have hpos := daysInMonth_pos (index / 12) (index % 12 + 1)
    rw [monthStart_succ]
    omega
  exact hmono.lt_iff_lt

/-! ## The month of a day -/

/-- The year of a day, both from the March of the year 0: 400 years have 146097 days, a century 36524,
four years 1461 and one 365, and the last one at times one more. -/
def marchYear (day : ℤ) : ℤ :=
  let rest := day % 146097
  let century := min (rest / 36524) 3
  let ofCentury := rest - 36524 * century
  400 * (day / 146097) + 100 * century + 4 * (ofCentury / 1461) + min (ofCentury % 1461 / 365) 3

theorem yearStart_of_parts {cycle century four year : ℤ} (hcentury : 0 ≤ century ∧ century ≤ 3)
    (hfour : 0 ≤ four ∧ four ≤ 24) (hyear : 0 ≤ year ∧ year ≤ 3) :
    yearStart (400 * cycle + 100 * century + 4 * four + year) =
      146097 * cycle + 36524 * century + 1461 * four + 365 * year := by
  unfold yearStart
  omega

theorem marchYear_spec (day : ℤ) :
    yearStart (marchYear day) ≤ day ∧ day < yearStart (marchYear day + 1) := by
  have hrest : 0 ≤ day % 146097 ∧ day % 146097 < 146097 := by omega
  have hday : day = 146097 * (day / 146097) + day % 146097 := by omega
  unfold marchYear
  dsimp only
  generalize day / 146097 = cycle at *
  generalize day % 146097 = rest at *
  obtain ⟨century, hcentury⟩ : ∃ century, century = min (rest / 36524) 3 := ⟨_, rfl⟩
  obtain ⟨ofCentury, hofCentury⟩ : ∃ n, n = rest - 36524 * century := ⟨_, rfl⟩
  obtain ⟨four, hfour⟩ : ∃ four, four = ofCentury / 1461 := ⟨_, rfl⟩
  obtain ⟨year, hyear⟩ : ∃ year, year = min (ofCentury % 1461 / 365) 3 := ⟨_, rfl⟩
  rw [← hcentury, ← hofCentury, ← hfour, ← hyear]
  have hcentury' : 0 ≤ century ∧ century ≤ 3 := by omega
  have hofCentury' : 0 ≤ ofCentury ∧ ofCentury ≤ 36524 := by omega
  have hfour' : 0 ≤ four ∧ four ≤ 24 := by omega
  have hyear' : 0 ≤ year ∧ year ≤ 3 := by omega
  constructor
  · rw [yearStart_of_parts hcentury' hfour' hyear']
    omega
  · -- the next year is one of the same four, or the first of the next four, century or cycle
    rcases hyear'.2.lt_or_eq with hless | rfl
    · rw [show 400 * cycle + 100 * century + 4 * four + year + 1 =
        400 * cycle + 100 * century + 4 * four + (year + 1) by ring,
        yearStart_of_parts hcentury' hfour' ⟨by omega, by omega⟩]
      omega
    · rcases hfour'.2.lt_or_eq with hless | rfl
      · rw [show 400 * cycle + 100 * century + 4 * four + 3 + 1 =
          400 * cycle + 100 * century + 4 * (four + 1) + 0 by ring,
          yearStart_of_parts hcentury' ⟨by omega, by omega⟩ ⟨le_rfl, by omega⟩]
        omega
      · rcases hcentury'.2.lt_or_eq with hless | rfl
        · rw [show 400 * cycle + 100 * century + 4 * 24 + 3 + 1 =
            400 * cycle + 100 * (century + 1) + 4 * 0 + 0 by ring,
            yearStart_of_parts ⟨by omega, by omega⟩ ⟨le_rfl, by omega⟩ ⟨le_rfl, by omega⟩]
          omega
        · rw [show 400 * cycle + 100 * 3 + 4 * 24 + 3 + 1 =
            400 * (cycle + 1) + 100 * 0 + 4 * 0 + 0 by ring,
            yearStart_of_parts ⟨le_rfl, by omega⟩ ⟨le_rfl, by omega⟩ ⟨le_rfl, by omega⟩]
          omega

/-- The month of a day. -/
def monthIndex (day : ℤ) : ℤ :=
  let year := marchYear (day + 719468)
  12 * year + (5 * (day + 719468 - yearStart year) + 2) / 153 + 2

/-- **The month of a day** has started, and is not over. -/
theorem monthIndex_spec (day : ℤ) :
    monthStart (monthIndex day) ≤ day ∧ day < monthStart (monthIndex day + 1) := by
  obtain ⟨hstart, hend⟩ := marchYear_spec (day + 719468)
  have hlong := daysInMonth_february_le (marchYear (day + 719468) + 1)
  unfold monthIndex
  dsimp only
  generalize marchYear (day + 719468) = year at *
  obtain ⟨ofYear, hofYear⟩ : ∃ n, n = day + 719468 - yearStart year := ⟨_, rfl⟩
  obtain ⟨month, hmonth⟩ : ∃ month, month = (5 * ofYear + 2) / 153 := ⟨_, rfl⟩
  have hsucc := yearStart_succ year
  rw [← hofYear, ← hmonth]
  have hmonth' : 0 ≤ month ∧ month ≤ 11 := by omega
  have hoffset : monthOffset month ≤ ofYear := by
    unfold monthOffset
    omega
  constructor
  · rw [monthStart_of_march hmonth'.1 (by omega)]
    omega
  · rcases hmonth'.2.lt_or_eq with hless | rfl
    · have hbefore : ofYear < monthOffset (month + 1) := by
        unfold monthOffset
        omega
      rw [monthStart_next hmonth'.1 hless]
      omega
    · rw [monthStart_march]
      omega

theorem monthIndex_mono {a b : ℤ} (h : a ≤ b) : monthIndex a ≤ monthIndex b := by
  have hless : monthStart (monthIndex a) < monthStart (monthIndex b + 1) :=
    ((monthIndex_spec a).1.trans h).trans_lt (monthIndex_spec b).2
  exact Int.lt_add_one_iff.mp (monthStart_lt_iff.mp hless)

/-! ## Dates -/

/-- A year, its month from one on, and the day of that from one on. -/
structure Date where
  year : ℤ
  month : ℤ
  day : ℤ
  deriving DecidableEq, Repr

/-- **The date of a day.** -/
def dateOf (day : ℤ) : Date where
  year := monthIndex day / 12
  month := monthIndex day % 12 + 1
  day := day - monthStart (monthIndex day) + 1

example : dateOf 20776 = ⟨2026, 11, 19⟩ := by decide

theorem month_bounds (n : ℤ) : 1 ≤ (dateOf n).month ∧ (dateOf n).month ≤ 12 := by
  simp only [dateOf]
  omega

theorem day_bounds (n : ℤ) : 1 ≤ (dateOf n).day ∧ (dateOf n).day ≤ 31 := by
  have hspec := monthIndex_spec n
  have hlong := daysInMonth_le (monthIndex n / 12) (monthIndex n % 12 + 1)
  rw [monthStart_succ] at hspec
  simp only [dateOf]
  omega

theorem year_mono {a b : ℤ} (h : a ≤ b) : (dateOf a).year ≤ (dateOf b).year :=
  Int.ediv_le_ediv (by decide) (monthIndex_mono h)

/-- **Days are in the order of their dates.** -/
theorem lt_iff_date {a b : ℤ} : a < b ↔ (dateOf a).year < (dateOf b).year ∨
    (dateOf a).year = (dateOf b).year ∧ ((dateOf a).month < (dateOf b).month ∨
      (dateOf a).month = (dateOf b).month ∧ (dateOf a).day < (dateOf b).day) := by
  have hindex : monthIndex a < monthIndex b ↔ (dateOf a).year < (dateOf b).year ∨
      (dateOf a).year = (dateOf b).year ∧ (dateOf a).month < (dateOf b).month := by
    simp only [dateOf]
    omega
  have hsame : monthIndex a = monthIndex b ↔
      (dateOf a).year = (dateOf b).year ∧ (dateOf a).month = (dateOf b).month := by
    simp only [dateOf]
    omega
  have hday : monthIndex a = monthIndex b → ((dateOf a).day < (dateOf b).day ↔ a < b) := by
    intro h
    simp only [dateOf, h]
    omega
  rw [and_or_left, ← or_assoc, ← and_assoc, ← hindex, ← hsame, and_congr_right hday]
  constructor
  · intro h
    rcases (monthIndex_mono h.le).lt_or_eq with hless | hsame
    · exact .inl hless
    · exact .inr ⟨hsame, h⟩
  · rintro (hless | ⟨-, h⟩)
    · exact lt_of_not_ge fun hge => (monthIndex_mono hge).not_gt hless
    · exact h

end Calendar
