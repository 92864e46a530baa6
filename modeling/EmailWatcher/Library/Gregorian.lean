import Mathlib.Data.Nat.Notation
import Mathlib.Tactic.IntervalCases

-- The proleptic Gregorian calendar, and its days, counted from the first day of the year one.
namespace Gregorian

section Calendar

def isLeap (year : Nat) : Bool :=
  year % 4 = 0 && (year % 100 ≠ 0 || year % 400 = 0)

def daysInMonth (leap : Bool) (month : Nat) : Nat :=
  if month = 2 ∧ leap then 29
  else [0, 31, 28, 31, 30, 31, 30, 31, 31, 30, 31, 30, 31].getD month 0

def daysBeforeMonth (leap : Bool) (month : Nat) : Nat :=
  [0, 0, 31, 59, 90, 120, 151, 181, 212, 243, 273, 304, 334].getD month 0 + if month > 2 ∧ leap then 1 else 0

def daysBeforeYear (year : Nat) : Nat :=
  (year - 1) * 365 + (year - 1) / 4 - (year - 1) / 100 + (year - 1) / 400

def daysInYear (year : Nat) : Nat :=
  if isLeap year then 366 else 365

def maxYear : Nat := 9999

abbrev IsDate (year month day : Nat) : Prop :=
  (1 ≤ year ∧ year ≤ maxYear) ∧ (1 ≤ month ∧ month ≤ 12) ∧ 1 ≤ day ∧ day ≤ daysInMonth (isLeap year) month

structure Date where
  year  : Nat
  month : Nat
  day   : Nat
  valid : IsDate year month day
  deriving DecidableEq

def Date.toordinal (date : Date) : Nat :=
  daysBeforeYear date.year + daysBeforeMonth (isLeap date.year) date.month + date.day

-- The month and the day of a day of a year, of which the first one is day zero.
def monthDay (leap : Bool) (n : Nat) : Nat × Nat :=
  -- an estimate, which is right or one too large
  let month := (n + 50) / 32
  let preceding := daysBeforeMonth leap month
  if preceding > n then (month - 1, n - (preceding - daysInMonth leap (month - 1)) + 1)
  else (month, n - preceding + 1)

-- The year, the month and the day of an ordinal. Cycles of 400, 100, 4 and one years are taken off.
def ymd (ordinal : Nat) : Nat × Nat × Nat :=
  let n := ordinal - 1
  let n400 := n / 146097
  let n := n % 146097
  let n100 := n / 36524
  let n := n % 36524
  let n4 := n / 1461
  let n := n % 1461
  let n1 := n / 365
  let n := n % 365
  let year := n400 * 400 + 1 + n100 * 100 + n4 * 4 + n1
  if n1 = 4 ∨ n100 = 4 then (year - 1, 12, 31)
  else (year, monthDay (n1 = 3 ∧ (n4 ≠ 24 ∨ n100 = 3)) n)

def Date.fromordinal (ordinal : Nat) : Option Date :=
  if h : 1 ≤ ordinal ∧ IsDate (ymd ordinal).1 (ymd ordinal).2.1 (ymd ordinal).2.2 then some ⟨_, _, _, h.right⟩
  else none

end Calendar

section Months

variable {leap : Bool} {month day n : Nat}

-- A day of a month is found again, and it is a day of the year.
theorem monthDay_eq : ∀ leap : Bool, ∀ month < 13, ∀ day < 32,
    1 ≤ month ∧ 1 ≤ day ∧ day ≤ daysInMonth leap month →
    monthDay leap (daysBeforeMonth leap month + day - 1) = (month, day) := by
  decide +kernel

theorem daysBeforeMonth_le : ∀ leap : Bool, ∀ month < 13, ∀ day < 32,
    1 ≤ month ∧ 1 ≤ day ∧ day ≤ daysInMonth leap month →
    daysBeforeMonth leap month + day ≤ if leap then 366 else 365 := by
  decide +kernel

-- A day of the year is a day of a month.
theorem exists_monthDay : ∀ leap : Bool, ∀ n < 366, n < (if leap then 366 else 365) →
    (1 ≤ (monthDay leap n).fst ∧ (monthDay leap n).fst ≤ 12) ∧
    1 ≤ (monthDay leap n).snd ∧ (monthDay leap n).snd ≤ daysInMonth leap (monthDay leap n).fst ∧
    daysBeforeMonth leap (monthDay leap n).fst + (monthDay leap n).snd = n + 1 := by
  decide +kernel

end Months

section Years

variable {year month day n : Nat}

-- A year is reached over whole cycles.
theorem exists_cycles (h : 1 ≤ year) : ∃ a b c d, b < 4 ∧ c < 25 ∧ d < 4 ∧
    year = 400 * a + 100 * b + 4 * c + d + 1 ∧
    daysBeforeYear year = 146097 * a + 36524 * b + 1461 * c + 365 * d ∧
    isLeap year = decide (d = 3 ∧ (c ≠ 24 ∨ b = 3)) := by
  obtain ⟨a, b, c, d, hb, hc, hd, rfl⟩ : ∃ a b c d, b < 4 ∧ c < 25 ∧ d < 4 ∧
      year = 400 * a + 100 * b + 4 * c + d + 1 :=
    ⟨(year - 1) / 400, (year - 1) % 400 / 100, (year - 1) % 100 / 4, (year - 1) % 4, by omega⟩
  refine ⟨a, b, c, d, hb, hc, hd, rfl, ?_, ?_⟩
  · have h4 : (400 * a + 100 * b + 4 * c + d) / 4 = 100 * a + 25 * b + c := by omega
    have h100 : (400 * a + 100 * b + 4 * c + d) / 100 = 4 * a + b := by omega
    have h400 : (400 * a + 100 * b + 4 * c + d) / 400 = a := by omega
    rw [daysBeforeYear, Nat.add_sub_cancel, h4, h100, h400]
    omega
  · have h4 : (400 * a + 100 * b + 4 * c + d + 1) % 4 = 0 ↔ d = 3 := by omega
    have h100 : (400 * a + 100 * b + 4 * c + d + 1) % 100 = 0 ↔ c = 24 ∧ d = 3 := by omega
    have h400 : (400 * a + 100 * b + 4 * c + d + 1) % 400 = 0 ↔ b = 3 ∧ c = 24 ∧ d = 3 := by omega
    rw [isLeap, Bool.eq_iff_iff]
    simp only [Bool.and_eq_true, Bool.or_eq_true, decide_eq_true_eq, ne_eq, h4, h100, h400]
    omega

theorem ymd_eq (h : 1 ≤ year) (hn : n < daysInYear year) :
    ymd (daysBeforeYear year + n + 1) = (year, monthDay (isLeap year) n) := by
  obtain ⟨a, b, c, d, hb, hc, hd, rfl, hbefore, hleap⟩ := exists_cycles h
  have hn : n < 365 ∨ n = 365 ∧ d = 3 ∧ (c ≠ 24 ∨ b = 3) := by
    rw [daysInYear, hleap] at hn
    simp only [decide_eq_true_eq] at hn
    split at hn <;> omega
  have h400 : (146097 * a + 36524 * b + 1461 * c + 365 * d + n) / 146097 = a := by omega
  have h400' : (146097 * a + 36524 * b + 1461 * c + 365 * d + n) % 146097 = 36524 * b + 1461 * c + 365 * d + n := by
    omega
  rw [ymd, hbefore, hleap, Nat.add_sub_cancel]
  simp only [h400, h400']
  rcases hn with hn | ⟨rfl, rfl, hlong⟩
  · have h100 : (36524 * b + 1461 * c + 365 * d + n) / 36524 = b := by omega
    have h100' : (36524 * b + 1461 * c + 365 * d + n) % 36524 = 1461 * c + 365 * d + n := by omega
    have h4 : (1461 * c + 365 * d + n) / 1461 = c := by omega
    have h4' : (1461 * c + 365 * d + n) % 1461 = 365 * d + n := by omega
    have h1 : (365 * d + n) / 365 = d := by omega
    have h1' : (365 * d + n) % 365 = n := by omega
    simp only [h100, h100', h4, h4', h1, h1']
    rw [if_neg (by omega)]
    exact Prod.ext (by dsimp only; omega) rfl
  · -- the last day of a leap year, which ends a cycle of four years, and perhaps one of 400 years
    have hleap : decide (3 = 3 ∧ (c ≠ 24 ∨ b = 3)) = true := decide_eq_true ⟨rfl, hlong⟩
    rw [hleap, show monthDay true 365 = (12, 31) by decide]
    by_cases hb3 : c = 24
    · obtain rfl : b = 3 := hlong.resolve_left (not_not_intro hb3)
      subst hb3
      simp [Nat.mul_comm]
    · have h100 : (36524 * b + 1461 * c + 365 * 3 + 365) / 36524 = b := by omega
      have h100' : (36524 * b + 1461 * c + 365 * 3 + 365) % 36524 = 1461 * c + 365 * 3 + 365 := by omega
      have h4 : (1461 * c + 365 * 3 + 365) / 1461 = c := by omega
      have h4' : (1461 * c + 365 * 3 + 365) % 1461 = 1460 := by omega
      simp only [h100, h100', h4, h4']
      rw [if_pos (by simp)]
      exact Prod.ext (by dsimp only; omega) rfl

theorem daysInYear_le : daysInYear year ≤ 366 := by
  rw [daysInYear]
  split <;> decide

theorem daysBeforeYear_succ (h : 1 ≤ year) : daysBeforeYear (year + 1) = daysBeforeYear year + daysInYear year := by
  obtain ⟨a, b, c, d, hb, hc, hd, rfl, hbefore, hleap⟩ := exists_cycles h
  rw [daysInYear, hbefore, hleap, daysBeforeYear, Nat.add_sub_cancel]
  simp only [decide_eq_true_eq]
  split <;> omega

-- Every day is a day of a year.
theorem exists_year (n : Nat) : ∃ year m, 1 ≤ year ∧ m < daysInYear year ∧ daysBeforeYear year + m = n := by
  induction n
  case zero      => exact ⟨1, 0, Nat.le_refl _, by decide, rfl⟩
  case succ n ih =>
    obtain ⟨year, m, hyear, hm, rfl⟩ := ih
    rcases Nat.lt_or_ge (m + 1) (daysInYear year) with hlt | hge
    · exact ⟨year, m + 1, hyear, hlt, rfl⟩
    · refine ⟨year + 1, 0, Nat.succ_pos _, ?_, ?_⟩
      · rw [daysInYear]
        split <;> decide
      · rw [daysBeforeYear_succ hyear]
        omega

end Years

namespace Date

def maxOrdinal : Nat := 3652059

variable {n : Nat}

theorem day_lt (date : Date) : date.day < 32 := by
  have hle : daysInMonth (isLeap date.year) date.month ≤ 31 := by
    have hmonth := date.valid.right.left
    generalize isLeap date.year = leap
    generalize date.month = month at hmonth
    obtain ⟨h₁, h₁₂⟩ := hmonth
    interval_cases month <;> cases leap <;> decide
  exact (date.valid.right.right.right.trans hle).trans_lt (by decide)

-- What the ordinal of a date is counted from, and how far it goes.
theorem toordinal_bounds (date : Date) :
    daysBeforeYear date.year < date.toordinal ∧ date.toordinal ≤ daysBeforeYear date.year + daysInYear date.year := by
  obtain ⟨-, hmonth, hday⟩ := date.valid
  have hle := daysBeforeMonth_le (isLeap date.year) date.month (Nat.lt_succ_of_le hmonth.right) date.day date.day_lt
    ⟨hmonth.left, hday⟩
  rw [toordinal, daysInYear]
  omega

theorem toordinal_le (date : Date) : 1 ≤ date.toordinal ∧ date.toordinal ≤ maxOrdinal := by
  obtain ⟨hlt, hle⟩ := date.toordinal_bounds
  obtain ⟨a, b, c, d, hb, hc, hd, hyear, hbefore, hleap⟩ := exists_cycles date.valid.left.left
  have hmax : date.year ≤ maxYear := date.valid.left.right
  rw [daysInYear, hbefore, hleap] at hle
  simp only [decide_eq_true_eq] at hle
  rw [maxYear] at hmax
  rw [maxOrdinal]
  split at hle <;> omega

theorem ymd_toordinal (date : Date) : ymd date.toordinal = (date.year, date.month, date.day) := by
  obtain ⟨hyear, hmonth, hday⟩ := date.valid
  obtain ⟨hlt, hle⟩ := date.toordinal_bounds
  have hordinal : date.toordinal = daysBeforeYear date.year +
      (daysBeforeMonth (isLeap date.year) date.month + date.day - 1) + 1 := by
    rw [toordinal]
    omega
  rw [hordinal, ymd_eq hyear.left (by omega), monthDay_eq (isLeap date.year) date.month (Nat.lt_succ_of_le hmonth.right)
    date.day date.day_lt ⟨hmonth.left, hday⟩]

theorem fromordinal_toordinal (date : Date) : fromordinal date.toordinal = some date := by
  have hymd := date.ymd_toordinal
  have hvalid : IsDate (ymd date.toordinal).1 (ymd date.toordinal).2.1 (ymd date.toordinal).2.2 := by
    rw [hymd]
    exact date.valid
  rw [fromordinal, dif_pos ⟨date.toordinal_le.left, hvalid⟩]
  simp [hymd]

-- The ordinals of the dates are those from one to the last one.
theorem exists_toordinal (h : 1 ≤ n ∧ n ≤ maxOrdinal) : ∃ date : Date, date.toordinal = n := by
  obtain ⟨year, m, hyear, hm, hn⟩ := exists_year (n - 1)
  obtain ⟨hmonth, hday, hle, hsum⟩ := exists_monthDay (isLeap year) m (hm.trans_le daysInYear_le) hm
  have hmax : year ≤ maxYear := by
    obtain ⟨a, b, c, d, hb, hc, hd, hcycles, hbefore, -⟩ := exists_cycles hyear
    have hlast := h.right
    rw [maxOrdinal] at hlast
    rw [maxYear]
    omega
  refine ⟨⟨year, _, _, ⟨hyear, hmax⟩, hmonth, hday, hle⟩, ?_⟩
  rw [toordinal]
  dsimp only
  omega

end Date

end Gregorian
