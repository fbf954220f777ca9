import MbararaAuction.Model.Ranges
import MbararaAuction.Proofs.LocalTimes

namespace MbararaAuction

section Order
variable {d e : Date}

theorem Date.lt_iff : d < e ↔ d.year < e.year ∨
    d.year = e.year ∧ (d.month < e.month ∨ d.month = e.month ∧ d.day < e.day) := by
  have hfields : d < e ↔ d.fields < e.fields := Iff.rfl
  simp only [hfields, Date.fields, Prod.Lex.toLex_lt_toLex]

/-- The months of all years in one sequence. -/
def Date.monthIndex (d : Date) : Int := 12 * d.year + d.month

theorem Date.lt_of_index (hd : 1 ≤ d.month ∧ d.month ≤ 12) (he : 1 ≤ e.month ∧ e.month ≤ 12)
    (h : d.monthIndex < e.monthIndex ∨ (d.monthIndex = e.monthIndex ∧ d.day < e.day)) : d < e := by
  rw [Date.lt_iff]
  unfold Date.monthIndex at h
  omega

end Order

section March
variable {doe : Nat} {n : Int}

/-- The year of an era of 400 years, by the day of the era. Years begin in March. -/
def marchYear (doe : Nat) : Nat := (doe - doe / 1460 + doe / 36524 - doe / 146096) / 365

def marchDay (doe : Nat) : Nat :=
  doe - (365 * marchYear doe + marchYear doe / 4 - marchYear doe / 100)

def marchMonth (doe : Nat) : Nat := (5 * marchDay doe + 2) / 153

def dayOfMonth (doe : Nat) : Nat := marchDay doe - (153 * marchMonth doe + 2) / 5 + 1

def dayOfEra (n : Int) : Nat := (n + 719468 - (n + 719468) / 146097 * 146097).toNat

theorem marchYear_lt (h : doe < 146097) : marchYear doe < 400 := (day_of_year h rfl).1

theorem marchMonth_lt (h : doe < 146097) : marchMonth doe < 12 := by
  have hday : marchDay doe < 366 := (day_of_year h rfl).2.2
  unfold marchMonth
  omega

theorem dateOfDays_index (n : Int) : (dateOfDays n).monthIndex =
    12 * ((n + 719468) / 146097 * 400 + marchYear (dayOfEra n)) + marchMonth (dayOfEra n) + 3 := by
  have hdoe : dayOfEra n < 146097 := by
    unfold dayOfEra
    omega
  have hmonth := marchMonth_lt hdoe
  have hyear : (dateOfDays n).year = marchYear (dayOfEra n) + (n + 719468) / 146097 * 400 +
      (if (if marchMonth (dayOfEra n) < 10 then marchMonth (dayOfEra n) + 3
        else marchMonth (dayOfEra n) - 9) ≤ 2 then 1 else 0) := rfl
  have hmonths : (dateOfDays n).month = if marchMonth (dayOfEra n) < 10 then
      marchMonth (dayOfEra n) + 3 else marchMonth (dayOfEra n) - 9 := rfl
  rw [Date.monthIndex, hyear, hmonths]
  split
  · split <;> omega
  · split <;> omega

theorem dateOfDays_dayOfMonth (n : Int) : (dateOfDays n).day = dayOfMonth (dayOfEra n) := rfl

/-- From a day of an era to the next the month stays and the day moves on, or the month does. -/
theorem march_succ (h : doe + 1 < 146097) :
    12 * marchYear doe + marchMonth doe < 12 * marchYear (doe + 1) + marchMonth (doe + 1) ∨
      (12 * marchYear doe + marchMonth doe = 12 * marchYear (doe + 1) + marchMonth (doe + 1) ∧
        dayOfMonth doe < dayOfMonth (doe + 1)) := by
  have hmonth : marchMonth doe < 12 := marchMonth_lt (by omega)
  have hyear : marchYear doe ≤ marchYear (doe + 1) := by
    unfold marchYear
    omega
  have hdoe : doe < 146097 := by omega
  have hstart : 365 * marchYear doe + marchYear doe / 4 - marchYear doe / 100 ≤ doe :=
    (day_of_year hdoe rfl).2.1
  by_cases hsame : marchYear (doe + 1) = marchYear doe
  · have hday : marchDay (doe + 1) = marchDay doe + 1 := by
      unfold marchDay
      rw [hsame]
      omega
    simp only [dayOfMonth, marchMonth, hday, hsame]
    omega
  · left
    omega

theorem dateOfDays_succ (n : Int) : dateOfDays n < dateOfDays (n + 1) := by
  apply Date.lt_of_index (dateOfDays_month n) (dateOfDays_month (n + 1))
  have hdoe : dayOfEra n < 146097 := by
    unfold dayOfEra
    omega
  rw [dateOfDays_index, dateOfDays_index, dateOfDays_dayOfMonth, dateOfDays_dayOfMonth]
  by_cases hlast : dayOfEra n + 1 < 146097
  · have hera : (n + 1 + 719468) / 146097 = (n + 719468) / 146097 := by
      unfold dayOfEra at hlast
      omega
    have hnext : dayOfEra (n + 1) = dayOfEra n + 1 := by
      unfold dayOfEra at hlast ⊢
      omega
    have hstep := march_succ hlast
    rw [hera, hnext]
    omega
  · -- The next day begins an era.
    have hera : (n + 1 + 719468) / 146097 = (n + 719468) / 146097 + 1 := by
      unfold dayOfEra at hlast
      omega
    have hyear := marchYear_lt hdoe
    have hmonth := marchMonth_lt hdoe
    left
    rw [hera]
    omega

/-- Later days have later dates. -/
theorem dateOfDays_le_iff {m n : Int} : dateOfDays m ≤ dateOfDays n ↔ m ≤ n :=
  (strictMono_int_of_lt_succ dateOfDays_succ).le_iff_le

end March

section Calendar
variable {d e : Date} {n : Int}

theorem Date.onCalendar_iff :
    d.onCalendar = true ↔ 1 ≤ d.year ∧ d.year ≤ 9999 ∧ dateOfDays (daysOf d) = d := by
  simp [Date.onCalendar, and_assoc]

theorem dateOfDays_daysOf (hd : d.onCalendar = true) : dateOfDays (daysOf d) = d :=
  (Date.onCalendar_iff.mp hd).2.2

/-- A date is not after another exactly when its day is not. -/
theorem le_dateOfDays (hd : d.onCalendar = true) : d ≤ dateOfDays n ↔ daysOf d ≤ n := by
  have hmono : dateOfDays (daysOf d) ≤ dateOfDays n ↔ daysOf d ≤ n := dateOfDays_le_iff
  rwa [dateOfDays_daysOf hd] at hmono

theorem dateOfDays_le (hd : d.onCalendar = true) : dateOfDays n ≤ d ↔ n ≤ daysOf d := by
  have hmono : dateOfDays n ≤ dateOfDays (daysOf d) ↔ n ≤ daysOf d := dateOfDays_le_iff
  rwa [dateOfDays_daysOf hd] at hmono

theorem daysOf_inj (hd : d.onCalendar = true) (he : e.onCalendar = true)
    (h : daysOf d = daysOf e) : d = e := by
  rw [← dateOfDays_daysOf hd, h, dateOfDays_daysOf he]

/-- The days of the years 1 to 9999. -/
theorem dateOfDays_year : 1 ≤ (dateOfDays n).year ∧ (dateOfDays n).year ≤ 9999 ↔
    daysOf Date.first ≤ n ∧ n ≤ daysOf Date.last := by
  obtain ⟨hmonth, hmonth'⟩ := dateOfDays_month n
  obtain ⟨hday, hday'⟩ := dateOfDays_day n
  have hfirst := le_dateOfDays (d := Date.first) (n := n) (by decide)
  have hlast := dateOfDays_le (d := Date.last) (n := n) (by decide)
  rw [← hfirst, ← hlast, ← not_lt (b := Date.first), ← not_lt (a := Date.last), Date.lt_iff,
    Date.lt_iff]
  simp only [Date.first, Date.last]
  omega

theorem Date.onCalendar_days (hd : d.onCalendar = true) :
    daysOf Date.first ≤ daysOf d ∧ daysOf d ≤ daysOf Date.last := by
  obtain ⟨hlow, hhigh, hback⟩ := Date.onCalendar_iff.mp hd
  rw [← dateOfDays_year, hback]
  exact ⟨hlow, hhigh⟩

end Calendar

end MbararaAuction
