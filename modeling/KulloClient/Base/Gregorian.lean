import Mathlib.Data.Nat.Find
import Mathlib.Order.Monotone.Basic
import Mathlib.Tactic.IntervalCases

/-!
# The Gregorian calendar

Dates and their day numbers.  Years are counted from year 0 and the calendar is continued before its introduction;
the numbers are those of Julian days.
-/

namespace Gregorian

def IsLeap (year : Nat) : Prop := year % 4 = 0 ∧ (year % 100 ≠ 0 ∨ year % 400 = 0)

instance (year : Nat) : Decidable (IsLeap year) := inferInstanceAs (Decidable (_ ∧ _))

def daysInMonth (year : Nat) : Nat → Nat
  | 1 | 3 | 5 | 7 | 8 | 10 | 12 => 31
  | 4 | 6 | 9 | 11 => 30
  | 2 => if IsLeap year then 29 else 28
  | _ => 0

def IsDate (year month day : Nat) : Prop := 1 ≤ day ∧ day ≤ daysInMonth year month

instance (year month day : Nat) : Decidable (IsDate year month day) := inferInstanceAs (Decidable (_ ∧ _))

/-- The days before a year, counted from year 0. -/
def daysBeforeYear (year : Nat) : Nat := 365 * year + (year + 3) / 4 + (year + 399) / 400 - (year + 99) / 100

/-- The days of a year before a month. -/
def daysBeforeMonth (year : Nat) : Nat → Nat
  | 0 => 0
  | month + 1 => daysBeforeMonth year month + daysInMonth year month

def dayNumber (year month day : Nat) : Nat := 1721059 + daysBeforeYear year + daysBeforeMonth year month + day

/-- The date of a day number. -/
def ofDayNumber (n : Nat) : Nat × Nat × Nat :=
  let inEra := n - 1721059
  let year := Nat.findGreatest (fun y => daysBeforeYear y < inEra) (inEra / 365)
  let inYear := inEra - daysBeforeYear year
  let month := Nat.findGreatest (fun m => daysBeforeMonth year m < inYear) 12
  (year, month, inYear - daysBeforeMonth year month)

theorem month_of_isDate {year month day : Nat} (h : IsDate year month day) : 1 ≤ month ∧ month ≤ 12 := by
  obtain ⟨hday, hle⟩ := h
  by_contra hmonth
  have hzero : daysInMonth year month = 0 := by
    unfold daysInMonth
    split <;> first | rfl | omega
  omega

theorem daysInMonth_le (year month : Nat) : daysInMonth year month ≤ 31 := by
  unfold daysInMonth
  split <;> first | omega | (split <;> omega)

/-- The multiples of `n` up to a year that are reached by the next one. -/
theorem div_succ {n : Nat} (hn : 0 < n) (year : Nat) :
    (year + 1 + (n - 1)) / n = (year + (n - 1)) / n + if year % n = 0 then 1 else 0 := by
  have hsum : year + 1 + (n - 1) = year + n := by omega
  have hdiv : (year + n) / n = year / n + 1 := Nat.add_div_right year hn
  have hmod := Nat.div_add_mod year n
  have hlt := Nat.mod_lt year hn
  rw [hsum, hdiv]
  split
  · next h =>
    have : (year + (n - 1)) / n = year / n := by
      rw [Nat.div_eq_iff hn]
      rw [Nat.mul_comm] at hmod
      omega
    omega
  · next h =>
    have : (year + (n - 1)) / n = year / n + 1 := by
      rw [Nat.div_eq_iff hn]
      rw [Nat.mul_comm] at hmod
      rw [Nat.succ_mul]
      omega
    omega

theorem daysBeforeYear_succ (year : Nat) :
    daysBeforeYear (year + 1) = daysBeforeYear year + if IsLeap year then 366 else 365 := by
  have h4 := @div_succ 4 (by decide) year
  have h100 := @div_succ 100 (by decide) year
  have h400 := @div_succ 400 (by decide) year
  have hle : (year + 99) / 100 ≤ (year + 3) / 4 := by omega
  have hmod4 : year % 100 = 0 → year % 4 = 0 := by omega
  have hmod100 : year % 400 = 0 → year % 100 = 0 := by omega
  unfold daysBeforeYear
  simp only [Nat.reduceSub] at h4 h100 h400
  rw [h4, h100, h400]
  generalize (year + 3) / 4 = fours at *
  generalize (year + 99) / 100 = hundreds at *
  generalize (year + 399) / 400 = eras at *
  by_cases hfour : year % 4 = 0
  · by_cases hhundred : year % 100 = 0
    · by_cases hera : year % 400 = 0
      · have hleap : IsLeap year := ⟨hfour, .inr hera⟩
        rw [if_pos hfour, if_pos hhundred, if_pos hera, if_pos hleap]
        omega
      · rw [if_pos hfour, if_pos hhundred, if_neg hera,
          if_neg fun h : IsLeap year => h.2.elim (· hhundred) hera]
        omega
    · have hleap : IsLeap year := ⟨hfour, .inl hhundred⟩
      rw [if_pos hfour, if_neg hhundred, if_neg fun h => hhundred (hmod100 h), if_pos hleap]
      omega
  · have hhundred : ¬year % 100 = 0 := fun h => hfour (hmod4 h)
    rw [if_neg hfour, if_neg hhundred, if_neg fun h => hhundred (hmod100 h),
      if_neg fun h : IsLeap year => hfour h.1]
    omega

theorem daysBeforeMonth_thirteen (year : Nat) : daysBeforeMonth year 13 = if IsLeap year then 366 else 365 := by
  simp only [daysBeforeMonth, daysInMonth]
  split <;> rfl

theorem daysBeforeYear_mono : Monotone daysBeforeYear :=
  monotone_nat_of_le_succ fun year => by
    rw [daysBeforeYear_succ]
    omega

theorem daysBeforeMonth_mono (year : Nat) : Monotone (daysBeforeMonth year) :=
  monotone_nat_of_le_succ fun _ => Nat.le_add_right _ _

/-- The days up to a date lie in its month, and those in its year. -/
theorem daysBeforeMonth_le {year month day : Nat} (h : IsDate year month day) :
    daysBeforeMonth year month + day ≤ daysBeforeMonth year (month + 1) ∧
      daysBeforeYear year + (daysBeforeMonth year month + day) ≤ daysBeforeYear (year + 1) := by
  have hmonth : daysBeforeMonth year month + day ≤ daysBeforeMonth year (month + 1) :=
    Nat.add_le_add_left h.2 _
  have hyear : daysBeforeMonth year (month + 1) ≤ daysBeforeMonth year 13 :=
    daysBeforeMonth_mono year (by have := (month_of_isDate h).2; omega)
  have hsucc := daysBeforeYear_succ year
  rw [← daysBeforeMonth_thirteen] at hsucc
  exact ⟨hmonth, by omega⟩

/-- The greatest index whose value lies below `x` is the one whose interval holds `x`. -/
theorem findGreatest_eq {f : Nat → Nat} (hf : Monotone f) {x i bound : Nat} (hbound : i ≤ bound) (hi : f i < x)
    (hsucc : x ≤ f (i + 1)) : Nat.findGreatest (fun k => f k < x) bound = i := by
  rw [Nat.findGreatest_eq_iff]
  refine ⟨hbound, fun _ => hi, ?_⟩
  intro k hk _ hlt
  have := hf (show i + 1 ≤ k from hk)
  omega

/-- A date is read back from its number. -/
theorem ofDayNumber_dayNumber {year month day : Nat} (h : IsDate year month day) :
    ofDayNumber (dayNumber year month day) = (year, month, day) := by
  obtain ⟨hmonth, hyear⟩ := daysBeforeMonth_le h
  have hera : dayNumber year month day - 1721059 = daysBeforeYear year + (daysBeforeMonth year month + day) := by
    unfold dayNumber
    omega
  have hbound : year ≤ (daysBeforeYear year + (daysBeforeMonth year month + day)) / 365 := by
    rw [Nat.le_div_iff_mul_le (by decide)]
    unfold daysBeforeYear
    omega
  have hday := h.1
  have hfindYear := findGreatest_eq daysBeforeYear_mono hbound
    (show daysBeforeYear year < daysBeforeYear year + (daysBeforeMonth year month + day) by omega) hyear
  have hfindMonth := findGreatest_eq (daysBeforeMonth_mono year) (month_of_isDate h).2
    (show daysBeforeMonth year month < daysBeforeMonth year month + day by omega) hmonth
  unfold ofDayNumber
  simp only [hera, hfindYear, Nat.add_sub_cancel_left, hfindMonth]

/-- The day after a date. -/
theorem exists_next {year month day : Nat} (h : IsDate year month day) :
    ∃ year' month' day', IsDate year' month' day' ∧
      dayNumber year' month' day' = dayNumber year month day + 1 ∧
      (year' = year ∨ year' = year + 1 ∧ month = 12 ∧ day = 31) := by
  have hmonth := month_of_isDate h
  have hfirst : ∀ y m, 1 ≤ m → m ≤ 12 → IsDate y m 1 := by
    intro y m h1 h12
    refine ⟨Nat.le_refl 1, ?_⟩
    interval_cases m
    case «2» =>
      rw [daysInMonth]
      split <;> decide
    all_goals simp [daysInMonth]
  by_cases hlast : day < daysInMonth year month
  · exact ⟨year, month, day + 1, ⟨by omega, hlast⟩, rfl, .inl rfl⟩
  · have hday : day = daysInMonth year month := Nat.le_antisymm h.2 (Nat.le_of_not_lt hlast)
    by_cases htwelve : month < 12
    · refine ⟨year, month + 1, 1, hfirst year (month + 1) (by omega) htwelve, ?_, .inl rfl⟩
      unfold dayNumber
      rw [daysBeforeMonth, hday]
      omega
    · have hdecember : month = 12 := by omega
      subst hdecember
      refine ⟨year + 1, 1, 1, hfirst (year + 1) 1 (by decide) (by decide), ?_, .inr ⟨rfl, rfl, hday⟩⟩
      have hsucc := daysBeforeYear_succ year
      rw [← daysBeforeMonth_thirteen, daysBeforeMonth] at hsucc
      have hone : daysBeforeMonth (year + 1) 1 = 0 := rfl
      unfold dayNumber
      omega

end Gregorian
