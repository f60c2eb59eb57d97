import ShardQuery.Timestamp
/-!
# Days and dates

Every day has a date of the calendar, and the date tells which day it is. Years are
counted from March on, in eras of four hundred years that are all equally long.
-/

namespace ShardQuery.Timestamp

-- ---------------------------------------------------------------------------
-- Years of an era
-- ---------------------------------------------------------------------------

def yearStart (year : Int) : Int := 365 * year + year / 4 - year / 100

def yearOf (day : Int) : Int := (day - day / 1460 + day / 36524 - day / 146096) / 365

def dayOf (day : Int) : Int := day - yearStart (yearOf day)

/-- The last day of an era apart, a day and its year are in the same century. -/
theorem yearOf_century {day : Int} (hlow : 0 ≤ day) (hhigh : day < 146096) :
    0 ≤ yearOf day / 100 ∧ yearOf day / 100 ≤ 3 ∧ yearOf day / 100 = day / 36524 ∧
      365 * yearOf day ≤ day - day / 1460 + day / 36524 ∧
      day - day / 1460 + day / 36524 < 365 * yearOf day + 365 := by
  generalize hyear : yearOf day = year
  have hcount : 365 * year ≤ day - day / 1460 + day / 36524 ∧
      day - day / 1460 + day / 36524 < 365 * year + 365 := by
    unfold yearOf at hyear
    omega
  have hcentury : day / 36524 = 0 ∨ day / 36524 = 1 ∨ day / 36524 = 2 ∨ day / 36524 = 3 := by
    omega
  obtain h | h | h | h := hcentury <;> rw [h] at hcount ⊢ <;> omega

theorem yearOf_spec {day : Int} (hlow : 0 ≤ day) (hhigh : day < 146097) :
    0 ≤ yearOf day ∧ yearOf day < 400 ∧ 0 ≤ dayOf day ∧ dayOf day ≤ 365 := by
  by_cases hlast : day = 146096
  · subst hlast
    decide
  have hcentury := yearOf_century hlow (by omega)
  unfold dayOf yearStart
  omega

theorem isLeap_yearOf {day : Int} (hlow : 0 ≤ day) (hhigh : day < 146097)
    (hday : dayOf day = 365) (era : Int) :
    isLeap (yearOf day + era * 400 + 1) = true := by
  have hleap : (yearOf day + 1) % 4 = 0 ∧
      ((yearOf day + 1) % 100 ≠ 0 ∨ (yearOf day + 1) % 400 = 0) := by
    by_cases hlast : day = 146096
    · subst hlast
      decide
    have hcentury := yearOf_century hlow (by omega)
    have hquarter : (yearOf day + 1) % 4 = 0 ∨ (yearOf day + 1) / 4 = yearOf day / 4 := by omega
    unfold dayOf yearStart at hday
    omega
  simp only [isLeap, Bool.and_eq_true, beq_iff_eq, Bool.or_eq_true, bne_iff_ne]
  omega

-- ---------------------------------------------------------------------------
-- Months of a year
-- ---------------------------------------------------------------------------

def monthStart (month : Int) : Int := (153 * month + 2) / 5

def monthOf (day : Int) : Int := (5 * day + 2) / 153

theorem monthOf_spec {day : Int} (hlow : 0 ≤ day) (hhigh : day ≤ 365) :
    0 ≤ monthOf day ∧ monthOf day ≤ 11 ∧ monthStart (monthOf day) ≤ day ∧
      day < monthStart (monthOf day + 1) := by
  unfold monthOf monthStart
  omega

-- ---------------------------------------------------------------------------
-- Dates
-- ---------------------------------------------------------------------------

/-- The date of a day of a month, the first of which is March. -/
def Date.fromMarch (year month day : Int) : Date :=
  let turned := if month < 10 then month + 3 else month - 9
  ⟨if turned ≤ 2 then year + 1 else year, turned.toNat, day.toNat⟩

theorem toDays_fromMarch {year month day : Int} (hmonth : 0 ≤ month ∧ month ≤ 11) (hday : 1 ≤ day) :
    (Date.fromMarch year month day).toDays =
      year / 400 * 146097 + yearStart (year % 400) + monthStart month + day - 1 - 719468 := by
  simp only [Date.fromMarch, Date.toDays, yearStart, monthStart]
  by_cases h : month < 10
  · have hturned : ¬(month + 3).toNat ≤ 2 := by omega
    have hsame : ¬month + 3 ≤ 2 := by omega
    simp only [h, ↓reduceIte, hturned, hsame]
    omega
  · have hturned : (month - 9).toNat ≤ 2 := by omega
    have hsame : month - 9 ≤ 2 := by omega
    simp only [h, ↓reduceIte, hturned, hsame]
    omega

theorem ofDays_eq (days : Int) :
    Date.ofDays days =
      let day := (days + 719468) % 146097
      .fromMarch (yearOf day + (days + 719468) / 146097 * 400) (monthOf (dayOf day))
        (dayOf day - monthStart (monthOf (dayOf day)) + 1) := rfl

theorem toDays_ofDays (days : Int) : (Date.ofDays days).toDays = days := by
  have hera := Int.mul_ediv_add_emod (days + 719468) 146097
  have hlow := Int.emod_nonneg (days + 719468) (by decide : (146097 : Int) ≠ 0)
  have hhigh := Int.emod_lt_of_pos (days + 719468) (by decide : (0 : Int) < 146097)
  rw [ofDays_eq]
  generalize (days + 719468) / 146097 = era at hera ⊢
  generalize (days + 719468) % 146097 = day at hera hlow hhigh ⊢
  obtain ⟨hyear, hyears, hstart, hend⟩ := yearOf_spec hlow hhigh
  obtain ⟨hmonth, hmonths, hfirst, -⟩ := monthOf_spec hstart hend
  have hyearOf : (yearOf day + era * 400) % 400 = yearOf day := by omega
  have heraOf : (yearOf day + era * 400) / 400 = era := by omega
  dsimp only
  rw [toDays_fromMarch ⟨hmonth, hmonths⟩ (by omega), hyearOf, heraOf]
  have hday : dayOf day = day - yearStart (yearOf day) := rfl
  omega

def Date.IsValid (date : Date) : Prop :=
  1 ≤ date.month ∧ date.month ≤ 12 ∧ 1 ≤ date.day ∧ date.day ≤ monthLength date.year date.month

/-- The months before February have their lengths from where they start. February takes what is
left of the year. -/
theorem fromMarch_isValid {year month day : Int} (hmonth : 0 ≤ month) (hmonths : month ≤ 11)
    (hday : 1 ≤ day) (hend : day ≤ monthStart (month + 1) - monthStart month)
    (hyear : monthStart month + day ≤ 366)
    (hleap : monthStart month + day = 366 → isLeap (year + 1) = true) :
    (Date.fromMarch year month day).IsValid := by
  by_cases hfebruary : month = 11
  · subst hfebruary
    have hstart : monthStart 11 = 337 := by decide
    rw [hstart] at hyear hleap
    have hlength : day.toNat ≤ if isLeap (year + 1) then 29 else 28 := by
      split
      · omega
      · rename_i hcommon
        have hshort : 337 + day ≠ 366 := fun h => hcommon (hleap h)
        omega
    have hfirst : 1 ≤ day.toNat := by omega
    exact ⟨show 1 ≤ 2 by decide, show 2 ≤ 12 by decide, hfirst, hlength⟩
  · obtain rfl | rfl | rfl | rfl | rfl | rfl | rfl | rfl | rfl | rfl | rfl :
        month = 0 ∨ month = 1 ∨ month = 2 ∨ month = 3 ∨ month = 4 ∨ month = 5 ∨ month = 6 ∨
          month = 7 ∨ month = 8 ∨ month = 9 ∨ month = 10 := by omega
    all_goals
      simp [Date.IsValid, Date.fromMarch, monthStart, monthLength] at hend ⊢
      omega

theorem ofDays_isValid (days : Int) : (Date.ofDays days).IsValid := by
  have hlow := Int.emod_nonneg (days + 719468) (by decide : (146097 : Int) ≠ 0)
  have hhigh := Int.emod_lt_of_pos (days + 719468) (by decide : (0 : Int) < 146097)
  rw [ofDays_eq]
  generalize (days + 719468) / 146097 = era
  generalize (days + 719468) % 146097 = day at hlow hhigh ⊢
  obtain ⟨-, -, hstart, hend⟩ := yearOf_spec hlow hhigh
  have hleap := isLeap_yearOf hlow hhigh
  obtain ⟨hmonth, hmonths, hfirst, hlast⟩ := monthOf_spec hstart hend
  refine fromMarch_isValid hmonth hmonths (by omega) (by omega) (by omega) fun h => ?_
  exact hleap (by omega) era

end ShardQuery.Timestamp
