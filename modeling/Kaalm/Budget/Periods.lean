import Kaalm.Budget.Provider
import Kaalm.Foundation.CivilDate

/-!
# Period keys and rollover times

Each scheme divides the days into consecutive stretches, and the key of an instant is a text of the
number of its stretch. `nextPeriodStart` is the first midnight of the next stretch. So a key lasts
until the rollover time, and the next one is another text.

Keys are compared as texts. For years of four digits this is the order of time: the numbers of a key
have a fixed width, the year of a week included. The week of a day near the end of a year may
belong to the year before or after it, and the keys of weeks are ordered by that year.
-/

namespace Kaalm

open Calendar

/-- An instant whose year is written with four digits. -/
def FourDigitYear (t : Time) : Prop :=
  1000 ≤ (civil (dayNumber t)).year ∧ (civil (dayNumber t)).year ≤ 9999

instance (t : Time) : Decidable (FourDigitYear t) := inferInstanceAs (Decidable (_ ∧ _))

/-! ## Schemes as stretches -/

/-- The periods of a scheme. -/
def BudgetPeriod.stretches : BudgetPeriod → Stretches
  | .monthly => months
  | .weekly => weeks
  | .daily | .none => days

/-- The key of a period by its number. -/
def BudgetPeriod.keyOf : BudgetPeriod → ℤ → String
  | .monthly, n => padded 4 (n / 12) ++ "-" ++ padded 2 (n % 12 + 1)
  | .weekly, n => padded 0 (isoWeekOf n).1 ++ "-W" ++ padded 2 (isoWeekOf n).2
  | .daily, z =>
    padded 4 (civil z).year ++ "-" ++ padded 2 (civil z).month ++ "-" ++ padded 2 (civil z).day
  | .none, _ => ""

/-- The number of the period an instant lies in. -/
def BudgetPeriod.number (scheme : BudgetPeriod) (t : Time) : ℤ :=
  scheme.stretches.index (dayNumber t)

theorem periodKey_eq (scheme : BudgetPeriod) (t : Time) :
    periodKey scheme t = scheme.keyOf (scheme.number t) := by
  cases scheme with
  | none => rfl
  | monthly =>
    show _ = padded 4 (monthIndex _ / 12) ++ "-" ++ padded 2 (monthIndex _ % 12 + 1)
    rw [monthIndex_ediv, monthIndex_emod]
    rfl
  | weekly =>
    rw [periodKey, isoWeek_eq]
    rfl
  | daily => rfl

theorem nextPeriodStart_eq (scheme : BudgetPeriod) (t : Time) :
    nextPeriodStart scheme t
      = midnight (scheme.stretches.start (scheme.number t + 1)) := by
  cases scheme with
  | none => rfl
  | monthly => exact congrArg midnight (daysFromCivil_next_month _)
  | weekly => exact congrArg midnight (next_monday _)
  | daily => rfl

theorem number_mono (scheme : BudgetPeriod) : Monotone scheme.number :=
  scheme.stretches.index_mono.comp dayNumber_mono

theorem number_nextPeriodStart (scheme : BudgetPeriod) (t : Time) :
    scheme.number (nextPeriodStart scheme t) = scheme.number t + 1 := by
  rw [nextPeriodStart_eq, BudgetPeriod.number, dayNumber_midnight, Stretches.index_start]

theorem lt_nextPeriodStart (scheme : BudgetPeriod) (t : Time) : t < nextPeriodStart scheme t := by
  rw [nextPeriodStart_eq, lt_midnight_iff]
  exact scheme.stretches.lt_start _

theorem number_eq_of_lt {scheme : BudgetPeriod} {t u : Time} (hle : t ≤ u)
    (hlt : u < nextPeriodStart scheme t) : scheme.number u = scheme.number t := by
  rw [nextPeriodStart_eq, lt_midnight_iff] at hlt
  exact scheme.stretches.index_eq_of_lt (dayNumber_mono hle) hlt

/-! ## The year of a period -/

/-- The year in the key of a period. -/
def BudgetPeriod.yearOf : BudgetPeriod → ℤ → ℤ
  | .monthly, n => n / 12
  | .weekly, n => (isoWeekOf n).1
  | .daily, z => (civil z).year
  | .none, _ => 0

/-- The week of 1 January 1000 belongs to that year, and the one of 31 December 9999 to that. -/
theorem isoYear_bounds {t : Time} (h : FourDigitYear t) :
    1000 ≤ (isoWeekOf (weeks.index (dayNumber t))).1
      ∧ (isoWeekOf (weeks.index (dayNumber t))).1 ≤ 9999 := by
  have hyears : Monotone fun n : ℤ ↦ (isoWeekOf n).1 := fun n n' hn ↦
    years.index_mono (show 7 * n ≤ 7 * n' by omega)
  have hfirst : yearStart 1000 ≤ dayNumber t :=
    (years.strictMono.monotone h.1).trans (years.start_le _)
  have hlast : dayNumber t ≤ yearStart 10000 - 1 := by
    have hlt : dayNumber t < yearStart ((civil (dayNumber t)).year + 1) := years.lt_start _
    have hle : yearStart ((civil (dayNumber t)).year + 1) ≤ yearStart 10000 :=
      years.strictMono.monotone (by have := h.2; omega)
    omega
  have h₁ : (isoWeekOf (weeks.index (yearStart 1000))).1 = 1000 := by decide +kernel
  have h₂ : (isoWeekOf (weeks.index (yearStart 10000 - 1))).1 = 9999 := by decide +kernel
  refine ⟨h₁.symm.le.trans (hyears (weeks.index_mono hfirst)), ?_⟩
  exact (hyears (weeks.index_mono hlast)).trans h₂.le

theorem yearOf_bounds {scheme : BudgetPeriod} (hscheme : scheme ≠ .none) {t : Time}
    (h : FourDigitYear t) :
    1000 ≤ scheme.yearOf (scheme.number t) ∧ scheme.yearOf (scheme.number t) ≤ 9999 := by
  cases scheme with
  | none => exact absurd rfl hscheme
  | monthly =>
    show 1000 ≤ monthIndex _ / 12 ∧ monthIndex _ / 12 ≤ 9999
    rw [monthIndex_ediv]
    exact h
  | weekly => exact isoYear_bounds h
  | daily => exact h

theorem yearOf_mono {scheme : BudgetPeriod} : Monotone scheme.yearOf := by
  intro n n' h
  cases scheme with
  | none => exact le_rfl
  | monthly => exact Int.ediv_le_ediv (by norm_num) h
  | weekly => exact years.index_mono (show 7 * n ≤ 7 * n' by omega)
  | daily => exact years.index_mono h

/-! ## Keys -/

/-- The order of keys, which share the width of their numbers. -/
theorem keyOf_lt {scheme : BudgetPeriod} (hscheme : scheme ≠ .none) {n n' : ℤ}
    (hn : 1000 ≤ scheme.yearOf n) (hn' : scheme.yearOf n' ≤ 9999) (h : n < n') :
    scheme.keyOf n < scheme.keyOf n' := by
  have hyears : scheme.yearOf n ≤ scheme.yearOf n' := yearOf_mono h.le
  cases scheme with
  | none => exact absurd rfl hscheme
  | monthly =>
    rw [BudgetPeriod.yearOf] at hn hn'
    rw [BudgetPeriod.keyOf, BudgetPeriod.keyOf, String.append_assoc, String.append_assoc]
    refine padded_append_lt (by norm_num) (by omega) (by omega) ?_
    rcases (Int.ediv_le_ediv (by norm_num) h.le : n / 12 ≤ n' / 12).lt_or_eq with hlt | heq
    · exact .inl hlt
    · exact .inr ⟨heq, append_lt_append_left _
        (padded_lt (by norm_num) (by omega) (by omega) (by omega))⟩
  | weekly =>
    rw [BudgetPeriod.yearOf] at hn hn'
    rw [BudgetPeriod.yearOf, BudgetPeriod.yearOf] at hyears
    have hpad : ∀ y : ℤ, 1000 ≤ y → padded 0 y = padded 4 y := fun y hy ↦
      padded_zero_eq (show 10 ^ 3 ≤ y by omega)
    rw [BudgetPeriod.keyOf, BudgetPeriod.keyOf, String.append_assoc, String.append_assoc,
      hpad _ hn, hpad _ (hn.trans hyears)]
    have hweek := isoWeekOf_bounds n
    have hweek' := isoWeekOf_bounds n'
    refine padded_append_lt (by norm_num) (by omega) (by omega) ?_
    exact (isoWeekOf_lt h).imp_right fun hsame ↦ ⟨hsame.1, append_lt_append_left _
      (padded_lt (by norm_num) (by omega) (by omega) hsame.2)⟩
  | daily =>
    rw [BudgetPeriod.yearOf] at hn hn'
    have hmonth := month_bounds n
    have hmonth' := month_bounds n'
    obtain ⟨-, hday, -, -⟩ := monthIndex_spec n
    obtain ⟨-, -, hday', -⟩ := monthIndex_spec n'
    have hdate := civil_lt h
    rw [monthIndex, monthIndex] at hdate
    simp only [BudgetPeriod.keyOf, String.append_assoc]
    refine padded_append_lt (by norm_num) (by omega) (by omega) ?_
    by_cases hyear : (civil n).year < (civil n').year
    · exact .inl hyear
    refine .inr ⟨by omega, append_lt_append_left _ ?_⟩
    refine padded_append_lt (by norm_num) (by omega) (by omega) ?_
    by_cases hlt : (civil n).month < (civil n').month
    · exact .inl hlt
    · exact .inr ⟨by omega, append_lt_append_left _
        (padded_lt (by norm_num) (by omega) (by omega) (by omega))⟩

/-- Different periods have different keys, beyond the years of four digits too. -/
theorem keyOf_inj {scheme : BudgetPeriod} (hscheme : scheme ≠ .none) {n n' : ℤ}
    (hn : 0 ≤ scheme.yearOf n) (hn' : 0 ≤ scheme.yearOf n')
    (h : scheme.keyOf n = scheme.keyOf n') : n = n' := by
  rw [← String.toList_inj] at h
  cases scheme with
  | none => exact absurd rfl hscheme
  | monthly =>
    rw [BudgetPeriod.yearOf] at hn hn'
    simp only [BudgetPeriod.keyOf, String.append_assoc, String.toList_append] at h
    obtain ⟨hyear, hmonth⟩ := padded_append_inj (c := '-') rfl hn hn' h
    have := padded_inj (by omega) (by omega) (String.toList_inj.mp hmonth)
    omega
  | weekly =>
    rw [BudgetPeriod.yearOf] at hn hn'
    simp only [BudgetPeriod.keyOf, String.append_assoc, String.toList_append] at h
    obtain ⟨hyear, hweek⟩ := padded_append_inj (c := '-') rfl hn hn' h
    have hbounds := isoWeekOf_bounds n
    have hbounds' := isoWeekOf_bounds n'
    have hsame := padded_inj (by omega) (by omega)
      (String.toList_inj.mp (List.cons.inj hweek).2)
    rcases lt_trichotomy n n' with hlt | heq | hlt
    · have := isoWeekOf_lt hlt
      omega
    · exact heq
    · have := isoWeekOf_lt hlt
      omega
  | daily =>
    rw [BudgetPeriod.yearOf] at hn hn'
    simp only [BudgetPeriod.keyOf, String.append_assoc, String.toList_append] at h
    have hmonth := month_bounds n
    have hmonth' := month_bounds n'
    obtain ⟨hfirst, hday, -, -⟩ := monthIndex_spec n
    obtain ⟨hfirst', hday', -, -⟩ := monthIndex_spec n'
    obtain ⟨hy, hrest⟩ := padded_append_inj (c := '-') rfl hn hn' h
    simp only [List.append_eq, List.nil_append] at hrest
    obtain ⟨hm, hrest'⟩ := padded_append_inj (c := '-') rfl (by omega) (by omega) hrest
    have hd := padded_inj (by omega) (by omega) (String.toList_inj.mp hrest')
    rw [monthIndex] at hfirst hfirst'
    rw [hy, hm] at hfirst
    omega

/-- A key lasts from any instant of its period to the rollover time, which has another key, and keys
never decrease as texts. -/
theorem periodKey_until_rollover {scheme : BudgetPeriod} (hscheme : scheme ≠ .none) {t : Time}
    (ht : FourDigitYear t) :
    t < nextPeriodStart scheme t
      ∧ (∀ u, t ≤ u → u < nextPeriodStart scheme t → periodKey scheme u = periodKey scheme t)
      ∧ periodKey scheme (nextPeriodStart scheme t) ≠ periodKey scheme t
      ∧ ∀ t₂, t ≤ t₂ → FourDigitYear t₂ → periodKey scheme t ≤ periodKey scheme t₂ := by
  have hyear := yearOf_bounds hscheme ht
  refine ⟨lt_nextPeriodStart scheme t, fun u hle hlt ↦ ?_, fun h ↦ ?_, fun t₂ hle ht₂ ↦ ?_⟩
  · rw [periodKey_eq, periodKey_eq, number_eq_of_lt hle hlt]
  · rw [periodKey_eq, periodKey_eq, number_nextPeriodStart] at h
    have hnext : scheme.yearOf (scheme.number t) ≤ scheme.yearOf (scheme.number t + 1) :=
      yearOf_mono (by omega)
    have := keyOf_inj hscheme (by omega) (by omega) h
    omega
  · rw [periodKey_eq, periodKey_eq]
    rcases (number_mono scheme hle).lt_or_eq with hlt | heq
    · exact (keyOf_lt hscheme hyear.1 (yearOf_bounds hscheme ht₂).2 hlt).le
    · rw [heq]

/-- The first day of 2027 is a Friday in the last of the 53 weeks of 2026. -/
theorem periodKey_until_rollover_new_year :
    periodKey .weekly (midnight 20819) = "2026-W53"
      ∧ nextPeriodStart .weekly (midnight 20819) = midnight 20822
      ∧ periodKey .weekly (nextPeriodStart .weekly (midnight 20819))
        ≠ periodKey .weekly (midnight 20819) := by
  refine ⟨by decide +kernel, by decide +kernel, ?_⟩
  exact (periodKey_until_rollover (by decide) (by decide +kernel)).2.2.1

end Kaalm
