import Kaalm.Foundation.Calendar
import Kaalm.Foundation.Cut
import Mathlib.Data.Int.ConditionallyCompleteOrder
import Mathlib.Data.Nat.Digits.Defs
import Mathlib.Data.String.Basic
import Mathlib.Order.Monotone.Basic
import Mathlib.Tactic.IntervalCases
import Mathlib.Tactic.Linarith
import Mathlib.Tactic.Ring

/-!
# Dates, months and weeks

The days of the calendar fall into consecutive stretches: years, months, weeks that start on a
Monday, and the days themselves. A `Stretches` numbers such stretches; the numbers grow with the
days, and the first day of a stretch has its number.

That `civil` finds the year of a day is the arithmetic of `yearOfEra_spec`. A day of an era is
written as centuries, four-year cycles, years and days; the divisors of `civil` then count the leap
days before it.

The last part is about the texts of dates. Numbers that are padded to the same width are in the
order of their texts (`padded_lt`), and a number can be read off the text before a separator
(`padded_append_inj`).
-/

namespace Calendar

/-! ## Consecutive stretches of days -/

/-- A division of the days into consecutive stretches. -/
structure Stretches where
  /-- The number of the stretch a day lies in. -/
  index : ℤ → ℤ
  /-- The first day of a stretch. -/
  start : ℤ → ℤ
  strictMono : StrictMono start
  start_le : ∀ z, start (index z) ≤ z
  lt_start : ∀ z, z < start (index z + 1)

namespace Stretches

variable (S : Stretches)

theorem index_eq {z n : ℤ} (hle : S.start n ≤ z) (hlt : z < S.start (n + 1)) : S.index z = n := by
  have h₁ : n < S.index z + 1 := S.strictMono.lt_iff_lt.mp (hle.trans_lt (S.lt_start z))
  have h₂ : S.index z < n + 1 := S.strictMono.lt_iff_lt.mp ((S.start_le z).trans_lt hlt)
  omega

theorem index_start (n : ℤ) : S.index (S.start n) = n :=
  S.index_eq le_rfl (S.strictMono (lt_add_one n))

theorem index_mono : Monotone S.index := by
  intro z z' h
  have hlt : S.index z < S.index z' + 1 :=
    S.strictMono.lt_iff_lt.mp ((S.start_le z).trans_lt (h.trans_lt (S.lt_start z')))
  omega

/-- The days from a day to the end of its stretch. -/
theorem index_eq_of_lt {z u : ℤ} (hle : z ≤ u) (hlt : u < S.start (S.index z + 1)) :
    S.index u = S.index z :=
  S.index_eq ((S.start_le z).trans hle) hlt

end Stretches

/-! ## Years from 1 March -/

/-- The days before a year that starts on 1 March, counted from 1 March of the year zero. -/
def marchDays (y : ℤ) : ℤ := 365 * y + y / 4 - y / 100 + y / 400

theorem marchDays_lt_succ (y : ℤ) : marchDays y + 365 ≤ marchDays (y + 1) := by
  rw [marchDays, marchDays]
  omega

theorem marchDays_succ_le (y : ℤ) : marchDays (y + 1) ≤ marchDays y + 366 := by
  rw [marchDays, marchDays]
  by_cases hera : y % 400 = 399
  · have h₁₀₀ : (y + 1) / 100 = y / 100 + 1 := by omega
    have h₄₀₀ : (y + 1) / 400 = y / 400 + 1 := by omega
    omega
  · have h₄₀₀ : (y + 1) / 400 = y / 400 := by omega
    omega

/-- The days before a month of such a year, March being `0`. -/
def monthDays (mp : ℤ) : ℤ := (153 * mp + 2) / 5

theorem daysFromCivil_eq (d : Date) :
    daysFromCivil d = marchDays (if d.month ≤ 2 then d.year - 1 else d.year)
      + monthDays (if d.month > 2 then d.month - 3 else d.month + 9) + d.day - 1 - 719468 := by
  rw [daysFromCivil, marchDays, monthDays]
  generalize (if d.month ≤ 2 then d.year - 1 else d.year) = y
  generalize (if d.month > 2 then d.month - 3 else d.month + 9) = mp
  omega

/-- The year of an era, from the day of the era. -/
def yearOfEra (doe : ℤ) : ℤ := (doe - doe / 1460 + doe / 36524 - doe / 146096) / 365

/-- A day of an era in centuries and days. The last century has one day more. -/
private theorem exists_century {doe : ℤ} (h₀ : 0 ≤ doe) (h₁ : doe ≤ 146096) :
    ∃ c d : ℤ, doe = 36524 * c + d ∧ 0 ≤ c ∧ c ≤ 3 ∧ 0 ≤ d ∧ d ≤ 36524 ∧ (c < 3 → d < 36524) := by
  by_cases hlast : doe = 146096
  · exact ⟨3, 36524, by omega⟩
  · exact ⟨doe / 36524, doe % 36524, by omega⟩

/-- A day of a century in four-year cycles, years and days. The last year of a cycle has one day
more. -/
private theorem exists_cycle {d : ℤ} (h₀ : 0 ≤ d) (h₁ : d ≤ 36524) :
    ∃ q s r : ℤ, d = 1461 * q + 365 * s + r ∧ 0 ≤ q ∧ q ≤ 24 ∧ 0 ≤ s ∧ s ≤ 3 ∧ 0 ≤ r ∧ r ≤ 365
      ∧ (s < 3 → r < 365) := by
  by_cases hlast : d % 1461 = 1460
  · exact ⟨d / 1461, 3, 365, by omega⟩
  · exact ⟨d / 1461, d % 1461 / 365, d % 1461 % 365, by omega⟩

/-- The first day of a year of an era. -/
private theorem marchDays_cycles {c q s : ℤ} (hc₀ : 0 ≤ c) (hc : c ≤ 3) (hq₀ : 0 ≤ q) (hq : q ≤ 24)
    (hs₀ : 0 ≤ s) (hs : s ≤ 3) :
    marchDays (100 * c + 4 * q + s) = 36524 * c + 1461 * q + 365 * s := by
  have h₄ : (100 * c + 4 * q + s) / 4 = 25 * c + q := by omega
  have h₁₀₀ : (100 * c + 4 * q + s) / 100 = c := by omega
  have h₄₀₀ : (100 * c + 4 * q + s) / 400 = 0 := by omega
  rw [marchDays, h₄, h₁₀₀, h₄₀₀]
  ring

/-- The next year starts after the last day of this one. -/
private theorem lt_marchDays_succ {c q s r : ℤ} (hc₀ : 0 ≤ c) (hc : c ≤ 3) (hq₀ : 0 ≤ q)
    (hq : q ≤ 24) (hs₀ : 0 ≤ s) (hs : s ≤ 3) (hr : r ≤ 365) (hyear : s < 3 → r < 365)
    (hcentury : c < 3 → 1461 * q + 365 * s + r < 36524) :
    36524 * c + 1461 * q + 365 * s + r < marchDays (100 * c + 4 * q + s + 1) := by
  rcases lt_or_eq_of_le hs with hs | rfl
  · have hnext := marchDays_cycles hc₀ hc hq₀ hq (by omega : 0 ≤ s + 1) (by omega)
    have hr := hyear hs
    rw [← add_assoc] at hnext
    linarith
  rcases lt_or_eq_of_le hq with hq | rfl
  · have hnext := marchDays_cycles hc₀ hc (by omega : 0 ≤ q + 1) (by omega) le_rfl (by norm_num)
    have hsame : 100 * c + 4 * (q + 1) + 0 = 100 * c + 4 * q + 3 + 1 := by ring
    rw [hsame] at hnext
    linarith
  rcases lt_or_eq_of_le hc with hc | rfl
  · have hnext := marchDays_cycles (by omega : 0 ≤ c + 1) (by omega) le_rfl (by norm_num) le_rfl
      (by norm_num)
    have hsame : 100 * (c + 1) + 4 * 0 + 0 = 100 * c + 4 * 24 + 3 + 1 := by ring
    have hshort := hcentury hc
    rw [hsame] at hnext
    linarith
  · have hera : marchDays (100 * 3 + 4 * 24 + 3 + 1) = 146097 := by decide
    linarith

/-- The divisor 1460 counts the leap days, and one too many at the end of a cycle. -/
private theorem leapDays_bounds {c q s r : ℤ} (hc₀ : 0 ≤ c) (hc : c ≤ 3) (hq₀ : 0 ≤ q)
    (hq : q ≤ 24) (hs₀ : 0 ≤ s) (hs : s ≤ 3) (hr₀ : 0 ≤ r) (hr : r ≤ 365)
    (hyear : s < 3 → r < 365) :
    0 ≤ r - (24 * c + q + 365 * s + r) / 1460 ∧ r - (24 * c + q + 365 * s + r) / 1460 ≤ 364 := by
  interval_cases s <;> omega

/-- The year of an era is the one that the day lies in. -/
theorem yearOfEra_spec {doe : ℤ} (h₀ : 0 ≤ doe) (h₁ : doe ≤ 146096) :
    0 ≤ yearOfEra doe ∧ yearOfEra doe ≤ 399 ∧ marchDays (yearOfEra doe) ≤ doe
      ∧ doe < marchDays (yearOfEra doe + 1) := by
  obtain ⟨c, d, hdoe, hc₀, hc₃, hd₀, hd, hcentury⟩ := exists_century h₀ h₁
  obtain ⟨q, s, r, hsplit, hq₀, hq, hs₀, hs, hr₀, hr, hyear⟩ := exists_cycle hd₀ hd
  have hlast : doe / 36524 - doe / 146096 = c := by
    rw [hdoe]
    clear hsplit hyear
    interval_cases c <;> omega
  have hleap := leapDays_bounds hc₀ hc₃ hq₀ hq hs₀ hs hr₀ hr hyear
  have hcycles : doe / 1460 = (24 * c + q + 365 * s + r) / 1460 + (25 * c + q) := by
    have hmul : doe = (24 * c + q + 365 * s + r) + 1460 * (25 * c + q) := by linarith
    rw [hmul, Int.add_mul_ediv_left _ _ (by norm_num)]
  have hyears : yearOfEra doe = 100 * c + 4 * q + s := by
    have hsum : doe - doe / 1460 + doe / 36524 - doe / 146096
        = (r - (24 * c + q + 365 * s + r) / 1460) + 365 * (100 * c + 4 * q + s) := by linarith
    rw [yearOfEra, hsum, Int.add_mul_ediv_left _ _ (by norm_num),
      Int.ediv_eq_zero_of_lt hleap.1 (by linarith), zero_add]
  have hnext := lt_marchDays_succ hc₀ hc₃ hq₀ hq hs₀ hs hr hyear (fun h ↦ hsplit ▸ hcentury h)
  rw [hyears, marchDays_cycles hc₀ hc₃ hq₀ hq hs₀ hs]
  exact ⟨by linarith, by linarith, by linarith, by linarith⟩

/-! ## Months -/

/-- The first day of a month. Months are counted from March of the year zero. -/
def marchMonthStart (k : ℤ) : ℤ := marchDays (k / 12) + monthDays (k % 12) - 719468

theorem marchMonthStart_lt_succ (k : ℤ) : marchMonthStart k < marchMonthStart (k + 1) := by
  rw [marchMonthStart, marchMonthStart]
  by_cases hlast : k % 12 = 11
  · have hyear : (k + 1) / 12 = k / 12 + 1 := by omega
    have hmonth : (k + 1) % 12 = 0 := by omega
    have hdays := marchDays_lt_succ (k / 12)
    rw [hyear, hmonth, hlast, monthDays, monthDays]
    omega
  · have hyear : (k + 1) / 12 = k / 12 := by omega
    have hmonth : (k + 1) % 12 = k % 12 + 1 := by omega
    rw [hyear, hmonth, monthDays, monthDays]
    omega

/-- The calendar repeats after an era. -/
theorem marchDays_add_era (y era : ℤ) : marchDays (y + era * 400) = marchDays y + era * 146097 := by
  rw [marchDays, marchDays]
  omega

/-- The month from 1 March that a day of the year lies in. -/
theorem monthDays_spec {doy : ℤ} (h₀ : 0 ≤ doy) (h₁ : doy ≤ 365) :
    0 ≤ (5 * doy + 2) / 153 ∧ (5 * doy + 2) / 153 ≤ 11 ∧ monthDays ((5 * doy + 2) / 153) ≤ doy
      ∧ doy < monthDays ((5 * doy + 2) / 153 + 1) := by
  rw [monthDays, monthDays]
  omega

/-- `civil` finds the year from 1 March and the month a day lies in. -/
theorem civil_spec (z : ℤ) :
    ∃ y mp doy : ℤ, 0 ≤ mp ∧ mp ≤ 11 ∧ z + 719468 = marchDays y + doy ∧ monthDays mp ≤ doy
      ∧ doy < monthDays (mp + 1) ∧ z + 719468 < marchDays (y + 1)
      ∧ civil z = { year := if mp < 10 then y else y + 1
                    month := if mp < 10 then mp + 3 else mp - 9
                    day := doy - monthDays mp + 1 } := by
  obtain ⟨era, hera⟩ : ∃ era, (z + 719468) / 146097 = era := ⟨_, rfl⟩
  obtain ⟨doe, hdoe⟩ : ∃ doe, z + 719468 - era * 146097 = doe := ⟨_, rfl⟩
  obtain ⟨yoe, hyoe⟩ : ∃ yoe, yearOfEra doe = yoe := ⟨_, rfl⟩
  obtain ⟨doy, hdoy⟩ : ∃ doy, doe - (365 * yoe + yoe / 4 - yoe / 100) = doy := ⟨_, rfl⟩
  obtain ⟨hyoe₀, hyoe₁, hle, hlt⟩ := yearOfEra_spec (show 0 ≤ doe by omega) (by omega)
  rw [hyoe] at hyoe₀ hyoe₁ hle hlt
  have hdays : marchDays yoe = 365 * yoe + yoe / 4 - yoe / 100 := by
    rw [marchDays]
    omega
  have hlength := marchDays_succ_le yoe
  obtain ⟨hmp₀, hmp₁, hfirst, hnext⟩ := monthDays_spec (show 0 ≤ doy by omega) (by omega)
  refine ⟨yoe + era * 400, (5 * doy + 2) / 153, doy, hmp₀, hmp₁, ?_, hfirst, hnext, ?_, ?_⟩
  · rw [marchDays_add_era]
    omega
  · rw [add_right_comm, marchDays_add_era]
    omega
  · rw [civil]
    simp only [hera, hdoe]
    rw [← yearOfEra, hyoe, hdoy, ← monthDays]
    generalize (5 * doy + 2) / 153 = mp at hmp₀ hmp₁
    by_cases hmp : mp < 10
    · have hmonth : ¬ mp + 3 ≤ 2 := by omega
      rw [if_pos hmp, if_pos hmp, if_neg hmonth, add_zero]
    · have hmonth : mp - 9 ≤ 2 := by omega
      rw [if_neg hmp, if_neg hmp, if_pos hmonth]

/-- A month of the calendar by its number, January of the year zero being `0`. -/
def monthStart (n : ℤ) : ℤ := daysFromCivil ⟨n / 12, n % 12 + 1, 1⟩

theorem monthStart_eq (n : ℤ) : monthStart n = marchMonthStart (n - 2) := by
  rw [monthStart, daysFromCivil_eq, marchMonthStart]
  by_cases hearly : n % 12 + 1 ≤ 2
  · have hyear : (n - 2) / 12 = n / 12 - 1 := by omega
    have hmonth : (n - 2) % 12 = n % 12 + 1 + 9 := by omega
    rw [if_pos hearly, if_neg (not_lt.mpr hearly), hyear, hmonth]
    ring
  · have hyear : (n - 2) / 12 = n / 12 := by omega
    have hmonth : (n - 2) % 12 = n % 12 + 1 - 3 := by omega
    rw [if_neg hearly, if_pos (not_le.mp hearly), hyear, hmonth]
    ring

/-- The number of the month a day lies in. -/
def monthIndex (z : ℤ) : ℤ := 12 * (civil z).year + ((civil z).month - 1)

theorem month_bounds (z : ℤ) : 1 ≤ (civil z).month ∧ (civil z).month ≤ 12 := by
  obtain ⟨y, mp, doy, hmp₀, hmp₁, -, -, -, -, hcivil⟩ := civil_spec z
  rw [hcivil]
  simp only
  split_ifs <;> omega

theorem monthIndex_ediv (z : ℤ) : monthIndex z / 12 = (civil z).year := by
  have h := month_bounds z
  rw [monthIndex]
  omega

theorem monthIndex_emod (z : ℤ) : monthIndex z % 12 + 1 = (civil z).month := by
  have h := month_bounds z
  rw [monthIndex]
  omega

/-- A day lies in its month, and the day of the month counts from the first one. -/
theorem monthIndex_spec (z : ℤ) :
    monthStart (monthIndex z) = z + 1 - (civil z).day ∧ 1 ≤ (civil z).day ∧ (civil z).day ≤ 31
      ∧ z < monthStart (monthIndex z + 1) := by
  obtain ⟨y, mp, doy, hmp₀, hmp₁, hz, hfirst, hnext, hyear, hcivil⟩ := civil_spec z
  have hindex : monthIndex z = 12 * y + mp + 2 := by
    rw [monthIndex, hcivil]
    simp only
    split_ifs <;> ring
  have hday : (civil z).day = doy - monthDays mp + 1 := by rw [hcivil]
  have hk : (12 * y + mp) / 12 = y ∧ (12 * y + mp) % 12 = mp := by omega
  have hsub : 12 * y + mp + 2 + 1 - 2 = 12 * y + mp + 1 := by ring
  have hlength : monthDays (mp + 1) ≤ monthDays mp + 31 := by
    rw [monthDays, monthDays]
    omega
  rw [hindex, hday, monthStart_eq, monthStart_eq, add_sub_cancel_right, hsub, marchMonthStart,
    marchMonthStart, hk.1, hk.2]
  refine ⟨by omega, by omega, by omega, ?_⟩
  -- The month after February is in the next year.
  by_cases hlast : mp = 11
  · have hk' : (12 * y + mp + 1) / 12 = y + 1 ∧ (12 * y + mp + 1) % 12 = 0 := by omega
    have hzero : monthDays 0 = 0 := rfl
    rw [hk'.1, hk'.2, hzero]
    omega
  · have hk' : (12 * y + mp + 1) / 12 = y ∧ (12 * y + mp + 1) % 12 = mp + 1 := by omega
    rw [hk'.1, hk'.2]
    omega

/-- The months of the calendar. -/
def months : Stretches where
  index := monthIndex
  start := monthStart
  strictMono := by
    refine strictMono_int_of_lt_succ fun n ↦ ?_
    rw [monthStart_eq, monthStart_eq, ← sub_add_eq_add_sub]
    exact marchMonthStart_lt_succ (n - 2)
  start_le z := by
    have h := monthIndex_spec z
    omega
  lt_start z := (monthIndex_spec z).2.2.2

/-- The first day of the month after the one of a date. -/
theorem daysFromCivil_next_month (z : ℤ) :
    daysFromCivil (if (civil z).month = 12 then ⟨(civil z).year + 1, 1, 1⟩
      else ⟨(civil z).year, (civil z).month + 1, 1⟩) = months.start (months.index z + 1) := by
  have h := month_bounds z
  show _ = daysFromCivil ⟨(monthIndex z + 1) / 12, (monthIndex z + 1) % 12 + 1, 1⟩
  rw [monthIndex]
  split_ifs with hlast
  · have hyear : (12 * (civil z).year + ((civil z).month - 1) + 1) / 12 = (civil z).year + 1 := by
      omega
    have hmonth : (12 * (civil z).year + ((civil z).month - 1) + 1) % 12 = 0 := by omega
    rw [hyear, hmonth, zero_add]
  · have hyear : (12 * (civil z).year + ((civil z).month - 1) + 1) / 12 = (civil z).year := by omega
    have hmonth : (12 * (civil z).year + ((civil z).month - 1) + 1) % 12 = (civil z).month := by
      omega
    rw [hyear, hmonth]

/-! ## Years -/

/-- The first day of a year. -/
def yearStart (y : ℤ) : ℤ := daysFromCivil ⟨y, 1, 1⟩

theorem yearStart_eq (y : ℤ) : yearStart y = monthStart (12 * y) := by
  have hyear : 12 * y / 12 = y := by omega
  have hmonth : 12 * y % 12 = 0 := by omega
  rw [yearStart, monthStart, hyear, hmonth, zero_add]

/-- The years of the calendar. -/
def years : Stretches where
  index z := (civil z).year
  start := yearStart
  strictMono := by
    intro y y' h
    rw [yearStart_eq, yearStart_eq]
    exact months.strictMono (by omega)
  start_le z := by
    have h := month_bounds z
    have hle : monthStart (12 * (civil z).year) ≤ monthStart (monthIndex z) :=
      months.strictMono.monotone (by rw [monthIndex]; omega)
    rw [yearStart_eq]
    exact hle.trans (months.start_le z)
  lt_start z := by
    have h := month_bounds z
    have hle : monthStart (monthIndex z + 1) ≤ monthStart (12 * ((civil z).year + 1)) :=
      months.strictMono.monotone (by rw [monthIndex]; omega)
    rw [yearStart_eq]
    exact (months.lt_start z).trans_le hle

theorem yearStart_succ_le (y : ℤ) : yearStart (y + 1) ≤ yearStart y + 366 := by
  have h := marchDays_succ_le (y - 1)
  rw [sub_add_cancel] at h
  have hsub : ∀ x : ℤ, yearStart x = marchDays (x - 1) + monthDays 10 - 719468 := by
    intro x
    rw [yearStart, daysFromCivil_eq]
    norm_num
  rw [hsub, hsub, add_sub_cancel_right]
  omega

/-! ## Weeks -/

/-- The weeks of the calendar, from Monday to Sunday. The week of the first Thursday is `0`. -/
def weeks : Stretches where
  index z := (z + 3) / 7
  start n := 7 * n - 3
  strictMono := by
    intro n n' h
    show 7 * n - 3 < 7 * n' - 3
    omega
  start_le z := by omega
  lt_start z := by omega

/-- The ISO year and week of a week, from its Thursday. -/
def isoWeekOf (n : ℤ) : ℤ × ℤ :=
  ((civil (7 * n)).year, (7 * n - yearStart (civil (7 * n)).year) / 7 + 1)

theorem isoWeek_eq (z : ℤ) : isoWeek z = isoWeekOf (weeks.index z) := by
  have hthursday : z + (if weekday z = 0 then -3 else 4 - weekday z) = 7 * ((z + 3) / 7) := by
    rw [weekday]
    split_ifs <;> omega
  rw [isoWeek, isoWeekOf]
  simp only [hthursday]
  rfl

/-- The Monday after a day. -/
theorem next_monday (z : ℤ) :
    z + (if (8 - weekday z) % 7 = 0 then 7 else (8 - weekday z) % 7)
      = weeks.start (weeks.index z + 1) := by
  show _ = 7 * ((z + 3) / 7 + 1) - 3
  rw [weekday]
  split_ifs <;> omega

theorem isoWeekOf_bounds (n : ℤ) : 1 ≤ (isoWeekOf n).2 ∧ (isoWeekOf n).2 ≤ 53 := by
  have hle : yearStart (civil (7 * n)).year ≤ 7 * n := years.start_le (7 * n)
  have hlt : 7 * n < yearStart ((civil (7 * n)).year + 1) := years.lt_start (7 * n)
  have hlength := yearStart_succ_le (civil (7 * n)).year
  rw [isoWeekOf]
  simp only
  omega

/-- Later weeks have a later year, or the same year and a later week. -/
theorem isoWeekOf_lt {n n' : ℤ} (h : n < n') :
    (isoWeekOf n).1 < (isoWeekOf n').1
      ∨ (isoWeekOf n).1 = (isoWeekOf n').1 ∧ (isoWeekOf n).2 < (isoWeekOf n').2 := by
  have hyear : (civil (7 * n)).year ≤ (civil (7 * n')).year := years.index_mono (by omega)
  rcases hyear.lt_or_eq with hlt | heq
  · exact .inl hlt
  · refine .inr ⟨heq, ?_⟩
    rw [isoWeekOf, isoWeekOf, heq]
    simp only
    omega

/-! ## Days -/

/-- The days themselves. -/
def days : Stretches where
  index z := z
  start z := z
  strictMono := strictMono_id
  start_le _ := le_rfl
  lt_start z := lt_add_one z

/-- Later days have a later month, or the same month and a later day of the month. -/
theorem civil_lt {z z' : ℤ} (h : z < z') :
    monthIndex z < monthIndex z'
      ∨ monthIndex z = monthIndex z' ∧ (civil z).day < (civil z').day := by
  have hindex : monthIndex z ≤ monthIndex z' := months.index_mono h.le
  rcases hindex.lt_or_eq with hlt | heq
  · exact .inl hlt
  · have hz := (monthIndex_spec z).1
    have hz' := (monthIndex_spec z').1
    rw [heq] at hz
    exact .inr ⟨heq, by omega⟩

/-! ## Instants -/

theorem dayNumber_midnight (day : ℤ) : dayNumber (midnight day) = day := by
  rw [dayNumber, midnight]
  exact Int.mul_ediv_cancel _ (by decide)

theorem dayNumber_mono : Monotone dayNumber := by
  intro t u h
  exact Int.ediv_le_ediv (by decide) h

theorem lt_midnight_iff {t : Time} {day : ℤ} : t < midnight day ↔ dayNumber t < day := by
  rw [midnight, dayNumber]
  exact (Int.ediv_lt_iff_lt_mul (by decide)).symm

/-! ## Padded numbers -/

/-- The last digits of a number, so many of them. -/
def lastDigits : ℕ → ℕ → List Char
  | 0, _ => []
  | width + 1, n => lastDigits width (n / 10) ++ [Nat.digitChar (n % 10)]

theorem length_lastDigits (width n : ℕ) : (lastDigits width n).length = width := by
  induction width generalizing n with
  | zero => rfl
  | succ width ih => rw [lastDigits, List.length_append, ih, List.length_singleton]

theorem lastDigits_zero (width : ℕ) : lastDigits width 0 = List.replicate width '0' := by
  induction width with
  | zero => rfl
  | succ width ih =>
    rw [lastDigits, Nat.zero_div, ih, List.replicate_succ']
    rfl

theorem lastDigits_eq {width n : ℕ} (hwidth : 0 < width) (hn : n < 10 ^ width) :
    lastDigits width n
      = List.replicate (width - (Nat.toDigits 10 n).length) '0' ++ Nat.toDigits 10 n := by
  induction width generalizing n with
  | zero => exact absurd hwidth (lt_irrefl 0)
  | succ width ih =>
    rw [lastDigits, Nat.toDigits_eq_if (by norm_num)]
    by_cases hsmall : n < 10
    · rw [if_pos hsmall, List.length_singleton, Nat.add_sub_cancel, Nat.div_eq_of_lt hsmall,
        Nat.mod_eq_of_lt hsmall, lastDigits_zero]
    · have hpos : 0 < width := by
        rcases Nat.eq_zero_or_pos width with rfl | h
        · exact absurd hn hsmall
        · exact h
      have hdiv : n / 10 < 10 ^ width := by
        rw [pow_succ] at hn
        omega
      rw [if_neg hsmall, List.length_append, List.length_singleton, Nat.add_sub_add_right,
        ih hpos hdiv, List.append_assoc]

theorem append_lt_append_of_length_eq {α : Type*} [LT α] {l l' r r' : List α}
    (hlength : l.length = l'.length) (h : l < l') : l ++ r < l' ++ r' := by
  induction l generalizing l' with
  | nil =>
    rw [List.length_nil, eq_comm, List.length_eq_zero_iff] at hlength
    rw [hlength] at h
    exact absurd h (List.not_lt_nil [])
  | cons a l ih =>
    cases l' with
    | nil => exact absurd hlength (Nat.succ_ne_zero _)
    | cons a' l' =>
      rw [List.cons_lt_cons_iff] at h
      rw [List.cons_append, List.cons_append, List.cons_lt_cons_iff]
      exact h.imp_right fun h ↦ ⟨h.1, ih (Nat.succ.inj hlength) h.2⟩

theorem digitChar_lt {a b : ℕ} (h : a < b) (hb : b < 10) : Nat.digitChar a < Nat.digitChar b := by
  interval_cases b <;> interval_cases a <;> decide

theorem lastDigits_lt {width m n : ℕ} (h : m < n) (hn : n < 10 ^ width) :
    lastDigits width m < lastDigits width n := by
  induction width generalizing m n with
  | zero => omega
  | succ width ih =>
    rw [lastDigits, lastDigits]
    have hdiv : n / 10 < 10 ^ width := by
      rw [pow_succ] at hn
      omega
    rcases Nat.lt_or_ge (m / 10) (n / 10) with hlt | hge
    · exact append_lt_append_of_length_eq
        ((length_lastDigits _ _).trans (length_lastDigits _ _).symm) (ih hlt hdiv)
    · have heq : m / 10 = n / 10 := le_antisymm (Nat.div_le_div_right h.le) hge
      rw [heq]
      exact List.append_left_lt
        (List.cons_lt_cons_iff.mpr (.inl (digitChar_lt (by omega) (Nat.mod_lt n (by norm_num)))))

/-- A number that fits the width. -/
theorem toList_padded {width : ℕ} {n : ℤ} (hwidth : 0 < width) (h₀ : 0 ≤ n) (hn : n < 10 ^ width) :
    (padded width n).toList = lastDigits width n.natAbs := by
  have hfits : n.natAbs < 10 ^ width := by
    zify
    rwa [abs_of_nonneg h₀]
  rw [padded, String.toList_ofList, if_neg (not_lt.mpr h₀), List.nil_append,
    lastDigits_eq hwidth hfits]

/-- The texts of dates are ordered by their first number, and then by the rest. -/
theorem padded_append_lt {width : ℕ} {m n : ℤ} {r r' : String} (hwidth : 0 < width) (h₀ : 0 ≤ m)
    (hn : n < 10 ^ width) (h : m < n ∨ m = n ∧ r < r') :
    padded width m ++ r < padded width n ++ r' := by
  rw [String.lt_iff_toList_lt, String.toList_append, String.toList_append]
  rcases h with h | ⟨rfl, h⟩
  · rw [toList_padded hwidth h₀ (h.trans hn), toList_padded hwidth (h₀.trans h.le) hn]
    refine append_lt_append_of_length_eq ((length_lastDigits _ _).trans
      (length_lastDigits _ _).symm) ?_
    refine lastDigits_lt (by omega) ?_
    zify
    rwa [abs_of_nonneg (h₀.trans h.le)]
  · exact List.append_left_lt (String.lt_iff_toList_lt.mp h)

theorem padded_lt {width : ℕ} {m n : ℤ} (hwidth : 0 < width) (h₀ : 0 ≤ m) (hn : n < 10 ^ width)
    (h : m < n) : padded width m < padded width n := by
  rw [← String.append_empty (s := padded width m), ← String.append_empty (s := padded width n)]
  exact padded_append_lt hwidth h₀ hn (.inl h)

theorem append_lt_append_left (s : String) {r r' : String} (h : r < r') : s ++ r < s ++ r' := by
  rw [String.lt_iff_toList_lt, String.toList_append, String.toList_append]
  exact List.append_left_lt (String.lt_iff_toList_lt.mp h)

/-- A number with enough digits needs no padding. -/
theorem padded_zero_eq {width : ℕ} {n : ℤ} (h : 10 ^ width ≤ n) :
    padded 0 n = padded (width + 1) n := by
  have habs : 10 ^ width ≤ n.natAbs := by
    zify
    exact h.trans (le_abs_self n)
  have hlength : width + 1 - (Nat.toDigits 10 n.natAbs).length = 0 := by
    rcases Nat.eq_zero_or_pos width with rfl | hwidth
    · have hpos := @Nat.length_toDigits_pos 10 n.natAbs
      omega
    · have hle := (Nat.length_toDigits_le_iff (n := n.natAbs)
        (show 1 < 10 by norm_num) hwidth).not.mpr
        (not_lt.mpr habs)
      omega
  rw [padded, padded, hlength, Nat.zero_sub]

theorem isDigit_of_mem_padded {width : ℕ} {n : ℤ} (h₀ : 0 ≤ n) :
    ∀ c ∈ (padded width n).toList, c.isDigit = true := by
  intro c hc
  rw [padded, String.toList_ofList, if_neg (not_lt.mpr h₀), List.nil_append, List.mem_append] at hc
  rcases hc with hc | hc
  · rw [List.eq_of_mem_replicate hc]
    rfl
  · exact Nat.isDigit_of_mem_toDigits (by norm_num) le_rfl hc

theorem ofDigitChars_replicate (k : ℕ) : Nat.ofDigitChars 10 (List.replicate k '0') 0 = 0 := by
  induction k with
  | zero => rfl
  | succ k ih =>
    rw [List.replicate_succ, Nat.ofDigitChars_cons]
    exact ih

theorem padded_inj {width : ℕ} {m n : ℤ} (hm : 0 ≤ m) (hn : 0 ≤ n)
    (h : padded width m = padded width n) : m = n := by
  have hread : ∀ k : ℤ, 0 ≤ k → Nat.ofDigitChars 10 (padded width k).toList 0 = k.natAbs := by
    intro k hk
    rw [padded, String.toList_ofList, if_neg (not_lt.mpr hk), List.nil_append,
      Nat.ofDigitChars_append, ofDigitChars_replicate, Nat.ofDigitChars_ten_toDigits]
  have habs : m.natAbs = n.natAbs := by rw [← hread m hm, ← hread n hn, h]
  omega

/-- A text that starts with a number and a separator. -/
theorem padded_append_inj {width : ℕ} {m n : ℤ} {c : Char} {r r' : List Char}
    (hc : c.isDigit = false)
    (hm : 0 ≤ m) (hn : 0 ≤ n)
    (h : (padded width m).toList ++ c :: r = (padded width n).toList ++ c :: r') :
    m = n ∧ r = r' := by
  have hfree : ∀ k : ℤ, 0 ≤ k → ∀ d ∈ (padded width k).toList, (!d.isDigit) = false :=
    fun k hk d hd ↦ by rw [isDigit_of_mem_padded hk d hd]; rfl
  obtain ⟨hmn, -, hr⟩ := Cut.append_cons_inj (hfree m hm) (hfree n hn)
    (by rw [hc]; rfl) (by rw [hc]; rfl) h
  exact ⟨padded_inj hm hn (String.toList_inj.mp hmn), hr⟩

end Calendar
