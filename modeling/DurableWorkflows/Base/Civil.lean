import Mathlib.Data.List.Lex
import Mathlib.Data.Nat.Find
import Mathlib.Order.Monotone.Basic

/-!
# The Gregorian calendar

Dates and times of the proleptic Gregorian calendar from the year 0 on, and the
seconds since its start. Years, months and days are steps of unequal lengths, so
a date is found by looking for the last step that is not after it.

## Main definitions

- `rung`: the step that a number falls into
- `isLeap`, `daysInMonth`, `daysBeforeYear`, `daysBeforeMonth`
- `DateTime`, `DateTime.seconds`, `DateTime.ofSeconds`

## Main results

- `DateTime.seconds_ofSeconds`: every second has a date and a time
- `DateTime.seconds_lt_iff`: the order of the seconds is that of the fields
-/

namespace Civil

-- ════════════════════════════════════════════════════════════════════════
-- Steps
-- ════════════════════════════════════════════════════════════════════════

section Steps

variable {f : ℕ → ℕ} {n bound k k' r r' : ℕ}

/-- The last step up to `bound` that does not start after `n`. -/
def rung (f : ℕ → ℕ) (bound n : ℕ) : ℕ := Nat.findGreatest (f · ≤ n) bound

theorem rung_le (f : ℕ → ℕ) (bound n : ℕ) : rung f bound n ≤ bound := Nat.findGreatest_le bound

theorem le_of_rung (h : f 0 ≤ n) : f (rung f bound n) ≤ n :=
  Nat.findGreatest_spec (P := (f · ≤ n)) (Nat.zero_le bound) h

theorem lt_of_rung (h : n < f (bound + 1)) : n < f (rung f bound n + 1) := by
  by_contra hge
  rcases (rung_le f bound n).lt_or_eq with hlt | heq
  · have hle : rung f bound n + 1 ≤ rung f bound n :=
      Nat.le_findGreatest (P := (f · ≤ n)) hlt (Nat.not_lt.mp hge)
    omega
  · rw [heq] at hge
    exact hge h

/-- A number of an earlier step is smaller. -/
theorem step_lt (hf : Monotone f) (h : f k + r < f (k + 1)) (hk : k < k') :
    f k + r < f k' + r' :=
  (h.trans_le (hf hk)).trans_le (Nat.le_add_right _ _)

end Steps

-- ════════════════════════════════════════════════════════════════════════
-- Years and months
-- ════════════════════════════════════════════════════════════════════════

/-- The years with a day more. -/
def isLeap (year : ℕ) : Bool := year % 4 = 0 ∧ (year % 100 ≠ 0 ∨ year % 400 = 0)

/-- The days of a year. -/
def daysInYear (year : ℕ) : ℕ := if isLeap year then 366 else 365

/-- The days of a month, from 1 to 12. -/
def daysInMonth (year : ℕ) : ℕ → ℕ
  | 2 => if isLeap year then 29 else 28
  | 4 | 6 | 9 | 11 => 30
  | _ => 31

/-- The days from the start of the year 0 to the start of a year. -/
def daysBeforeYear (year : ℕ) : ℕ :=
  365 * year + (year + 3) / 4 - (year + 99) / 100 + (year + 399) / 400

/-- The days of the first months of a year. -/
def daysBeforeMonth (year : ℕ) : ℕ → ℕ
  | 0 => 0
  | months + 1 => daysBeforeMonth year months + daysInMonth year (months + 1)

theorem daysBeforeYear_succ (year : ℕ) :
    daysBeforeYear (year + 1) = daysBeforeYear year + daysInYear year := by
  have h4 : (year + 1 + 3) / 4 = (year + 3) / 4 + if year % 4 = 0 then 1 else 0 := by
    split <;> omega
  have h100 : (year + 1 + 99) / 100 = (year + 99) / 100 + if year % 100 = 0 then 1 else 0 := by
    split <;> omega
  have h400 : (year + 1 + 399) / 400 = (year + 399) / 400 + if year % 400 = 0 then 1 else 0 := by
    split <;> omega
  have hle : (year + 99) / 100 ≤ (year + 3) / 4 := by omega
  have hcentury : year % 100 = 0 → year % 4 = 0 := by omega
  have hcycle : year % 400 = 0 → year % 100 = 0 := by omega
  unfold daysBeforeYear daysInYear isLeap
  rw [h4, h100, h400]
  generalize (year + 3) / 4 = a, (year + 99) / 100 = b, (year + 399) / 400 = c at *
  clear h4 h100 h400
  by_cases hc : year % 400 = 0
  · simp only [hc, hcycle hc, hcentury (hcycle hc), if_pos, decide_true, ne_eq, not_true_eq_false,
      false_or, and_self]
    omega
  · by_cases hb : year % 100 = 0
    · simp only [hc, hb, hcentury hb, if_pos, if_false, decide_false, ne_eq, not_true_eq_false,
        false_or, and_false, Bool.false_eq_true]
      omega
    · by_cases ha : year % 4 = 0
      · simp only [hc, hb, ha, if_pos, if_false, decide_true, ne_eq, not_false_eq_true, true_or,
          and_self]
        omega
      · simp only [hc, hb, ha, if_false, decide_false, false_and, Bool.false_eq_true]
        omega

theorem daysBeforeYear_mono : Monotone daysBeforeYear :=
  monotone_nat_of_le_succ fun year => by
    rw [daysBeforeYear_succ]
    exact Nat.le_add_right _ _

theorem le_daysBeforeYear (year : ℕ) : 365 * year ≤ daysBeforeYear year := by
  unfold daysBeforeYear
  omega

theorem daysBeforeMonth_mono (year : ℕ) : Monotone (daysBeforeMonth year) :=
  monotone_nat_of_le_succ fun _ => Nat.le_add_right _ _

theorem daysBeforeMonth_twelve (year : ℕ) : daysBeforeMonth year 12 = daysInYear year := by
  simp only [daysBeforeMonth, daysInMonth, daysInYear]
  by_cases h : isLeap year
  · rw [if_pos h, if_pos h]
  · rw [if_neg h, if_neg h]

theorem daysInMonth_le (year month : ℕ) : daysInMonth year month ≤ 31 := by
  unfold daysInMonth
  split <;> (try split) <;> omega

-- ════════════════════════════════════════════════════════════════════════
-- Dates and times
-- ════════════════════════════════════════════════════════════════════════

/-- A date and a time of the day, in whole seconds. -/
structure DateTime where
  year : ℕ
  month : ℕ
  day : ℕ
  hour : ℕ
  minute : ℕ
  second : ℕ
  month_pos : 0 < month
  month_le : month ≤ 12
  day_pos : 0 < day
  day_le : day ≤ daysInMonth year month
  hour_lt : hour < 24
  minute_lt : minute < 60
  second_lt : second < 60
  deriving DecidableEq

namespace DateTime

variable {a b : DateTime}

/-- The day of the year, from 0. -/
def dayOfYear (a : DateTime) : ℕ := daysBeforeMonth a.year (a.month - 1) + (a.day - 1)

/-- The days since the start of the year 0. -/
def days (a : DateTime) : ℕ := daysBeforeYear a.year + a.dayOfYear

/-- The seconds since midnight. -/
def secondOfDay (a : DateTime) : ℕ := 3600 * a.hour + (60 * a.minute + a.second)

/-- The seconds since the start of the year 0. -/
def seconds (a : DateTime) : ℕ := 86400 * a.days + a.secondOfDay

/-- The fields, the largest unit first. -/
def numbers (a : DateTime) : List ℕ := [a.year, a.month, a.day, a.hour, a.minute, a.second]

theorem numbers_injective : Function.Injective numbers := by
  intro a b h
  simp only [numbers, List.cons.injEq, and_true] at h
  obtain ⟨hyear, hmonth, hday, hhour, hminute, hsecond⟩ := h
  cases a
  cases b
  subst hyear hmonth hday hhour hminute hsecond
  rfl

/-- A day is within its month. -/
theorem dayOfYear_lt_month (a : DateTime) :
    daysBeforeMonth a.year (a.month - 1) + (a.day - 1) <
      daysBeforeMonth a.year (a.month - 1 + 1) := by
  have hmonth := Nat.sub_add_cancel a.month_pos
  have hday := a.day_le
  have hpos := a.day_pos
  rw [daysBeforeMonth, hmonth]
  omega

/-- A day is within its year. -/
theorem days_lt_year (a : DateTime) :
    daysBeforeYear a.year + a.dayOfYear < daysBeforeYear (a.year + 1) := by
  have hmonth : daysBeforeMonth a.year (a.month - 1 + 1) ≤ daysBeforeMonth a.year 12 :=
    daysBeforeMonth_mono a.year (Nat.sub_add_cancel a.month_pos ▸ a.month_le)
  rw [daysBeforeYear_succ, ← daysBeforeMonth_twelve]
  exact Nat.add_lt_add_left (a.dayOfYear_lt_month.trans_le hmonth) _

theorem secondOfDay_lt (a : DateTime) : a.secondOfDay < 86400 := by
  have := a.hour_lt
  have := a.minute_lt
  have := a.second_lt
  unfold secondOfDay
  omega

/-- An earlier day is earlier. -/
theorem seconds_lt_of_days_lt (h : a.days < b.days) : a.seconds < b.seconds := by
  have := a.secondOfDay_lt
  unfold seconds
  omega

/-- Fields in lexicographic order are in the order of time. -/
theorem seconds_lt_of_numbers_lt (h : a.numbers < b.numbers) : a.seconds < b.seconds := by
  have hminute := a.minute_lt
  have hsecond := a.second_lt
  simp only [numbers, List.cons_lt_cons_iff] at h
  rcases h with hyear | ⟨hyear, h⟩
  · exact seconds_lt_of_days_lt (step_lt daysBeforeYear_mono a.days_lt_year hyear)
  rcases h with hmonth | ⟨hmonth, h⟩
  · have hmonth' : a.month - 1 < b.month - 1 := by
      have := a.month_pos
      omega
    have hday : a.dayOfYear < b.dayOfYear := by
      unfold dayOfYear
      rw [← hyear]
      exact step_lt (daysBeforeMonth_mono a.year) a.dayOfYear_lt_month hmonth'
    apply seconds_lt_of_days_lt
    unfold days
    rw [hyear]
    exact Nat.add_lt_add_left hday _
  rcases h with hday | ⟨hday, h⟩
  · apply seconds_lt_of_days_lt
    have := a.day_pos
    unfold days dayOfYear
    rw [hyear, hmonth]
    omega
  have hdays : a.days = b.days := by
    unfold days dayOfYear
    rw [hyear, hmonth, hday]
  unfold seconds secondOfDay
  rw [hdays]
  rcases h with hhour | ⟨hhour, hm | ⟨hm, hs | ⟨-, hnil⟩⟩⟩
  · omega
  · omega
  · omega
  · exact absurd hnil (lt_irrefl _)

/-- **The order of time** is the order of the fields. -/
theorem seconds_lt_iff : a.seconds < b.seconds ↔ a.numbers < b.numbers := by
  refine ⟨fun h => ?_, seconds_lt_of_numbers_lt⟩
  rcases lt_trichotomy a.numbers b.numbers with hlt | heq | hgt
  · exact hlt
  · rw [numbers_injective heq] at h
    exact absurd h (lt_irrefl _)
  · exact absurd (seconds_lt_of_numbers_lt hgt) h.asymm

/-- The date and time with some fields, if there is one. -/
def ofNumbers? : List ℕ → Option DateTime
  | [year, month, day, hour, minute, second] =>
    if h : (0 < month ∧ month ≤ 12) ∧ (0 < day ∧ day ≤ daysInMonth year month) ∧
        hour < 24 ∧ minute < 60 ∧ second < 60 then
      some ⟨year, month, day, hour, minute, second, h.1.1, h.1.2, h.2.1.1, h.2.1.2, h.2.2.1,
        h.2.2.2.1, h.2.2.2.2⟩
    else
      none
  | _ => none

theorem ofNumbers?_numbers (a : DateTime) : ofNumbers? a.numbers = some a :=
  dif_pos ⟨⟨a.month_pos, a.month_le⟩, ⟨a.day_pos, a.day_le⟩, a.hour_lt, a.minute_lt, a.second_lt⟩

end DateTime

-- ════════════════════════════════════════════════════════════════════════
-- The date of a second
-- ════════════════════════════════════════════════════════════════════════

section OfSeconds

/-- The year of a day. -/
def yearOf (days : ℕ) : ℕ := rung daysBeforeYear (days / 365) days

/-- The day of the year of a day. -/
def dayOfYearOf (days : ℕ) : ℕ := days - daysBeforeYear (yearOf days)

/-- The months of the year that ended before a day. -/
def monthsOf (days : ℕ) : ℕ := rung (daysBeforeMonth (yearOf days)) 11 (dayOfYearOf days)

theorem yearOf_spec (days : ℕ) :
    daysBeforeYear (yearOf days) ≤ days ∧ days < daysBeforeYear (yearOf days + 1) := by
  refine ⟨le_of_rung (Nat.zero_le days), lt_of_rung ?_⟩
  have := le_daysBeforeYear (days / 365 + 1)
  omega

theorem monthsOf_spec (days : ℕ) :
    daysBeforeMonth (yearOf days) (monthsOf days) ≤ dayOfYearOf days ∧
      dayOfYearOf days < daysBeforeMonth (yearOf days) (monthsOf days + 1) := by
  refine ⟨le_of_rung (Nat.zero_le _), lt_of_rung ?_⟩
  obtain ⟨hle, hlt⟩ := yearOf_spec days
  rw [daysBeforeYear_succ] at hlt
  rw [daysBeforeMonth_twelve, dayOfYearOf]
  omega

/-- The date and the time of a second. -/
def DateTime.ofSeconds (n : ℕ) : DateTime where
  year := yearOf (n / 86400)
  month := monthsOf (n / 86400) + 1
  day := dayOfYearOf (n / 86400) -
    daysBeforeMonth (yearOf (n / 86400)) (monthsOf (n / 86400)) + 1
  hour := n % 86400 / 3600
  minute := n % 3600 / 60
  second := n % 60
  month_pos := Nat.succ_pos _
  month_le := Nat.succ_le_succ (rung_le _ _ _)
  day_pos := Nat.succ_pos _
  day_le := by
    obtain ⟨hle, hlt⟩ := monthsOf_spec (n / 86400)
    rw [daysBeforeMonth] at hlt
    omega
  hour_lt := by omega
  minute_lt := by omega
  second_lt := by omega

/-- **Every second** has a date and a time. -/
theorem DateTime.seconds_ofSeconds (n : ℕ) : (ofSeconds n).seconds = n := by
  have hyear := (yearOf_spec (n / 86400)).1
  have hmonth := (monthsOf_spec (n / 86400)).1
  have hdays : (ofSeconds n).days = n / 86400 := by
    show daysBeforeYear (yearOf (n / 86400)) +
      (daysBeforeMonth (yearOf (n / 86400)) (monthsOf (n / 86400) + 1 - 1) +
        (dayOfYearOf (n / 86400) -
          daysBeforeMonth (yearOf (n / 86400)) (monthsOf (n / 86400)) + 1 - 1)) = n / 86400
    rw [Nat.add_sub_cancel, Nat.add_sub_cancel, Nat.add_sub_of_le hmonth, dayOfYearOf,
      Nat.add_sub_of_le hyear]
  rw [seconds, hdays]
  show 86400 * (n / 86400) + (3600 * (n % 86400 / 3600) + (60 * (n % 3600 / 60) + n % 60)) = n
  omega

end OfSeconds

end Civil
