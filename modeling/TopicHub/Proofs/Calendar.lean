import TopicHub.Instant

/-!
Days and dates. Every number of days is the number of days of its date, and the month and the day of
that date are some of the calendar. Years are counted from March in eras of 400 years; within an era
the year is found by a division that grows with the day, so it is enough to look at the first and the
last day of each year.
-/

namespace TopicHub.Instant

def daysInEra : Nat := 146097

def yearStart (y : Nat) : Nat := 365 * y + y / 4 - y / 100 + y / 400

/-- The day of an era with the leap days before it taken out. -/
def plainDay (n : Nat) : Nat := n - n / 1460 + n / 36524 - n / 146096

theorem plainDay_mono {m n : Nat} (h : m ≤ n) (hn : n < daysInEra) : plainDay m ≤ plainDay n := by
  unfold daysInEra at hn
  unfold plainDay
  omega

theorem le_plainDay_yearStart : ∀ y < 400, 365 * y ≤ plainDay (yearStart y) := by decide +kernel

theorem plainDay_before_lt : ∀ y < 400, plainDay (yearStart (y + 1) - 1) < 365 * (y + 1) := by
  decide +kernel

theorem yearStart_succ : ∀ y < 400,
    yearStart (y + 1) = yearStart y + if isLeapYear (y + 1) then 366 else 365 := by
  decide +kernel

theorem yearStart_le {y : Nat} (h : y ≤ 400) : yearStart y ≤ daysInEra := by
  unfold yearStart daysInEra
  omega

theorem yearOfEra_lt {n : Nat} (h : n < daysInEra) : plainDay n / 365 < 400 := by
  have hl : plainDay n ≤ plainDay (daysInEra - 1) :=
    plainDay_mono (Nat.le_sub_one_of_lt h) (by decide)
  have hd : plainDay (daysInEra - 1) < 365 * 400 := by decide
  omega

theorem yearStart_le_day {n : Nat} (h : n < daysInEra) : yearStart (plainDay n / 365) ≤ n := by
  apply Nat.le_of_not_lt
  intro hn
  have hy := yearOfEra_lt h
  rcases hz : plainDay n / 365 with _ | y
  · rw [hz] at hn
    exact Nat.not_lt_zero n hn
  · rw [hz] at hn hy
    have hle := yearStart_le (Nat.le_of_lt hy)
    have hm := plainDay_mono (Nat.le_sub_one_of_lt hn) (by omega)
    have hb := plainDay_before_lt y (by omega)
    omega

theorem day_lt_yearStart {n : Nat} (h : n < daysInEra) :
    n < yearStart (plainDay n / 365 + 1) := by
  apply Nat.lt_of_not_le
  intro hn
  have hy := yearOfEra_lt h
  by_cases hl : plainDay n / 365 + 1 < 400
  · have hm := plainDay_mono hn h
    have hs := le_plainDay_yearStart _ hl
    omega
  · have he : plainDay n / 365 + 1 = 400 := by omega
    rw [he] at hn
    exact absurd h (Nat.not_lt.mpr hn)

theorem dayOfYear_lt {n : Nat} (h : n < daysInEra) :
    n - yearStart (plainDay n / 365) <
      if isLeapYear ((plainDay n / 365 : Nat) + 1) then 366 else 365 := by
  have hl := yearStart_le_day h
  have hu := day_lt_yearStart h
  rw [yearStart_succ _ (yearOfEra_lt h)] at hu
  omega

def monthOf (dayOfYear : Nat) : Nat := (5 * dayOfYear + 2) / 153

def dayOfMonth (dayOfYear : Nat) : Nat := dayOfYear - (153 * monthOf dayOfYear + 2) / 5 + 1

def calendarMonth (m : Nat) : Nat := if m < 10 then m + 3 else m - 9

/-- Day 365, the last of February, is there in leap years only. -/
theorem month_of_day : ∀ d < 366, monthOf d < 12 ∧ (153 * monthOf d + 2) / 5 ≤ d ∧
    dayOfMonth d ≤ daysInMonth (if d = 365 then 0 else 1) (calendarMonth (monthOf d)) := by
  decide +kernel

theorem daysInMonth_le {y z : Int} {m : Nat} (h : m = 2 → isLeapYear y → isLeapYear z) :
    daysInMonth y m ≤ daysInMonth z m := by
  unfold daysInMonth
  grind

def marchDate (y : Int) (dayOfYear : Nat) : Date :=
  ⟨y + if calendarMonth (monthOf dayOfYear) ≤ 2 then 1 else 0, calendarMonth (monthOf dayOfYear),
    dayOfMonth dayOfYear⟩

theorem toDays_marchDate (y : Int) {d : Nat} (h : d < 366) :
    (marchDate y d).toDays = 365 * y + y.fdiv 4 - y.fdiv 100 + y.fdiv 400 + d - epochDays := by
  obtain ⟨hm, hd, _⟩ := month_of_day d h
  unfold Date.toDays marchDays marchDate dayOfMonth
  dsimp only
  generalize monthOf d = m at *
  unfold calendarMonth
  by_cases hl : m < 10
  · have h2 : ¬ m + 3 ≤ 2 := by omega
    simp only [hl, if_true, h2, if_false, Int.add_zero, Nat.add_sub_cancel]
    omega
  · have h2 : m - 9 ≤ 2 := by omega
    have h9 : m - 9 + 9 = m := by omega
    simp only [hl, if_true, h2, if_false, h9, Int.add_sub_cancel]
    omega

theorem marchDate_month (y : Int) {d : Nat} (h : d < 366) :
    1 ≤ (marchDate y d).month ∧ (marchDate y d).month ≤ 12 := by
  have hm := (month_of_day d h).1
  unfold marchDate calendarMonth
  dsimp only
  split <;> omega

theorem marchDate_day {y : Int} {d : Nat} (h : d < if isLeapYear (y + 1) then 366 else 365) :
    1 ≤ (marchDate y d).day ∧
      (marchDate y d).day ≤ daysInMonth (marchDate y d).year (marchDate y d).month := by
  have hd : d < 366 := by split at h <;> omega
  refine ⟨Nat.le_add_left 1 _, Nat.le_trans (month_of_day d hd).2.2 (daysInMonth_le ?_)⟩
  intro hm hl
  have hy : (marchDate y d).year = y + 1 := by
    unfold marchDate
    rw [hm]
    rfl
  rw [hy]
  by_cases h365 : d = 365
  · by_cases hy : isLeapYear (y + 1) = true
    · exact hy
    · rw [if_neg hy] at h
      omega
  · simp only [h365, if_false] at hl
    exact absurd hl (by decide)

theorem fmod_era_lt (z : Int) : (z.fmod daysInEra).toNat < daysInEra := by
  have hp : (0 : Int) < daysInEra := by decide
  have hl := Int.fmod_lt_of_pos z hp
  omega

def dayOfEra (days : Int) : Nat := ((days + epochDays).fmod daysInEra).toNat

def yearOfEra (days : Int) : Nat := plainDay (dayOfEra days) / 365

theorem ofDays_eq (days : Int) : Date.ofDays days =
    marchDate (yearOfEra days + (days + epochDays).fdiv daysInEra * 400)
      (dayOfEra days - yearStart (yearOfEra days)) := by
  have hs : yearStart (yearOfEra days) =
      365 * yearOfEra days + yearOfEra days / 4 - yearOfEra days / 100 := by
    have hy : yearOfEra days / 400 = 0 := Nat.div_eq_of_lt (yearOfEra_lt (fmod_era_lt _))
    unfold yearStart
    rw [hy]
    rfl
  rw [hs]
  rfl

theorem leapDays_era (y : Nat) (e : Int) :
    let z := (y : Int) + e * 400
    365 * z + z.fdiv 4 - z.fdiv 100 + z.fdiv 400 = yearStart y + e * daysInEra := by
  intro z
  unfold yearStart daysInEra
  rw [Int.fdiv_eq_ediv_of_nonneg _ (by decide), Int.fdiv_eq_ediv_of_nonneg _ (by decide),
    Int.fdiv_eq_ediv_of_nonneg _ (by decide)]
  omega

theorem isLeapYear_era (y e : Int) : isLeapYear (y + e * 400 + 1) = isLeapYear (y + 1) := by
  have h4 : (y + e * 400 + 1) % 4 = (y + 1) % 4 := by omega
  have h100 : (y + e * 400 + 1) % 100 = (y + 1) % 100 := by omega
  have h400 : (y + e * 400 + 1) % 400 = (y + 1) % 400 := by omega
  unfold isLeapYear
  rw [h4, h100, h400]

theorem dayOfYear_days_lt (days : Int) :
    dayOfEra days - yearStart (yearOfEra days) <
      if isLeapYear (yearOfEra days + (days + epochDays).fdiv daysInEra * 400 + 1) then 366
      else 365 := by
  rw [isLeapYear_era]
  exact dayOfYear_lt (fmod_era_lt _)

theorem toDays_ofDays (days : Int) : (Date.ofDays days).toDays = days := by
  have hd := dayOfYear_days_lt days
  have hs : yearStart (yearOfEra days) ≤ dayOfEra days := yearStart_le_day (fmod_era_lt _)
  have hz := Int.mul_fdiv_add_fmod (days + epochDays) daysInEra
  have hp : 0 ≤ (days + epochDays).fmod daysInEra := Int.fmod_nonneg_of_pos _ (by decide)
  have hn : (dayOfEra days : Int) = (days + epochDays).fmod daysInEra := Int.toNat_of_nonneg hp
  rw [ofDays_eq, toDays_marchDate _ (by split at hd <;> omega), leapDays_era]
  rw [Int.mul_comm] at hz
  omega

/-- The date of a day is one of the calendar, whatever its year. -/
theorem ofDays_valid (days : Int) :
    (1 ≤ (Date.ofDays days).month ∧ (Date.ofDays days).month ≤ 12) ∧ 1 ≤ (Date.ofDays days).day ∧
      (Date.ofDays days).day ≤ daysInMonth (Date.ofDays days).year (Date.ofDays days).month := by
  have hd := dayOfYear_days_lt days
  rw [ofDays_eq]
  exact ⟨marchDate_month _ (by split at hd <;> omega), marchDate_day hd⟩

end TopicHub.Instant
