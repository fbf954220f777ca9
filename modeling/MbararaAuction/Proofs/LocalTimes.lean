import Mathlib.Data.List.DropRight
import MbararaAuction.Model.Control

namespace MbararaAuction
open Calendars

section Calendar
variable {doe yoe doy mp : Nat} {era : Int}

/-- The year of an era that a day of it lies in, and the day of that year. -/
theorem day_of_year (h : doe < 146097)
    (hy : yoe = (doe - doe / 1460 + doe / 36524 - doe / 146096) / 365) :
    yoe < 400 ∧ 365 * yoe + yoe / 4 - yoe / 100 ≤ doe ∧
      doe - (365 * yoe + yoe / 4 - yoe / 100) < 366 := by
  -- In one century of days and one of years the counts are linear.
  have hdays : doe / 36524 = 0 ∨ doe / 36524 = 1 ∨ doe / 36524 = 2 ∨ doe / 36524 = 3 ∨
    doe / 36524 = 4 := by omega
  have hyears : yoe / 100 = 0 ∨ yoe / 100 = 1 ∨ yoe / 100 = 2 ∨ yoe / 100 = 3 := by omega
  rcases hdays with hdays | hdays | hdays | hdays | hdays <;>
    rcases hyears with hyears | hyears | hyears | hyears <;> omega

/-- A year that begins in March is put together again from its era, its months and days. -/
theorem daysOf_march (hyoe : yoe < 400) (hmp : mp < 12) (hfirst : (153 * mp + 2) / 5 ≤ doy) :
    daysOf ⟨yoe + era * 400 + (if (if mp < 10 then mp + 3 else mp - 9) ≤ 2 then 1 else 0),
        if mp < 10 then mp + 3 else mp - 9, doy - (153 * mp + 2) / 5 + 1⟩ =
      era * 146097 + (yoe * 365 + yoe / 4 - yoe / 100 + doy : Nat) - 719468 := by
  have hyear : ((yoe : Int) + era * 400) / 400 = era := by omega
  have hrest : ((yoe : Int) + era * 400 - era * 400).toNat = yoe := by omega
  have hday : (153 * mp + 2) / 5 + (doy - (153 * mp + 2) / 5 + 1) - 1 = doy := by omega
  by_cases hlate : mp < 10
  · have hmonth : ¬ mp + 3 ≤ 2 := by omega
    have hback : mp + 3 - 3 = mp := by omega
    simp only [daysOf, hlate, hmonth, ↓reduceIte, Int.add_zero, hyear, hrest, hback, hday]
  · have hmonth : mp - 9 ≤ 2 := by omega
    have hback : mp - 9 + 9 = mp := by omega
    simp only [daysOf, hlate, hmonth, ↓reduceIte, Int.add_sub_cancel, hyear, hback, hday]
    rw [Int.toNat_natCast]

/-- A date is found again by its day. -/
theorem daysOf_dateOfDays (days : Int) : daysOf (dateOfDays days) = days := by
  have hdoe : (days + 719468 - (days + 719468) / 146097 * 146097).toNat < 146097 := by omega
  obtain ⟨hyoe, hstart, hend⟩ := day_of_year hdoe rfl
  unfold dateOfDays
  rw [daysOf_march hyoe (by omega) (by omega)]
  omega

theorem dateOfDays_month (days : Int) :
    1 ≤ (dateOfDays days).month ∧ (dateOfDays days).month ≤ 12 := by
  have hdoe : (days + 719468 - (days + 719468) / 146097 * 146097).toNat < 146097 := by omega
  obtain ⟨_, _, hend⟩ := day_of_year hdoe rfl
  simp only [dateOfDays]
  split <;> omega

theorem dateOfDays_day (days : Int) : 1 ≤ (dateOfDays days).day ∧ (dateOfDays days).day ≤ 31 := by
  simp only [dateOfDays]
  omega

end Calendar

section Fields
variable {t : Time}

/-- The minute that has begun. -/
def wholeMinute (t : Time) : Time := t / 60000000 * 60000000

/-- The year of the local time has four digits. -/
def fourDigitYear (t : Time) : Prop := 1000 ≤ (localtime t).year ∧ (localtime t).year < 10000

/-- The numbers of a local time are in range, except for the year. -/
theorem localtime_admits (p : Numeral) (hp : p ≠ .year) : p.admits (p.get (localtime t)) = true := by
  have hmonth := dateOfDays_month (kampala t / 1000000 / 86400)
  have hday := dateOfDays_day (kampala t / 1000000 / 86400)
  cases p with
  | year => exact absurd rfl hp
  | month | day | hour | minute | second =>
    simp only [Numeral.admits, Bool.and_eq_true, decide_eq_true_eq]
    simp only [Numeral.get, localtime]
    omega

theorem localtime_prints (hyear : fourDigitYear t) (p : Numeral) : p.Prints (p.get (localtime t)) := by
  by_cases hp : p = .year
  · subst hp
    obtain ⟨hlow, hhigh⟩ := hyear
    refine ⟨?_, fun _ => hlow⟩
    simp only [Numeral.admits, Bool.and_eq_true, decide_eq_true_eq]
    exact ⟨le_trans (by decide) hlow, Nat.le_of_lt_succ hhigh⟩
  · exact ⟨localtime_admits p hp, fun h => absurd h hp⟩

/-- The seconds of the local day without those of the minute that has begun. -/
theorem minute_begun (t : Int) :
    ((t + 3 * 3600000000) / 1000000 / 86400 * 86400 +
        ((((t + 3 * 3600000000) / 1000000 % 86400).toNat / 3600 * 3600 +
          ((t + 3 * 3600000000) / 1000000 % 86400).toNat / 60 % 60 * 60 + 0 : Nat) : Int)) * 1000000 -
      3 * 3600000000 = t / 60000000 * 60000000 := by
  have hday := Int.emod_nonneg ((t + 3 * 3600000000) / 1000000) (b := 86400) (by decide)
  have hlocal : (t + 3 * 3600000000) / 1000000 = t / 1000000 + 10800 := by omega
  rw [hlocal] at hday ⊢
  omega

/-- The local time to the minute is a time again. -/
theorem fromCurrentTimezone_localtime (hyear : fourDigitYear t) :
    fromCurrentTimezone (copy (localtime t) isoMinutes newYear1900) = some (wholeMinute t) := by
  have hback : (((dateOfDays (kampala t / 1000000 / 86400)).year.toNat : Nat) : Int) =
      (dateOfDays (kampala t / 1000000 / 86400)).year := by
    simp only [fourDigitYear, localtime] at hyear
    omega
  simp only [fromCurrentTimezone, copy, isoMinutes, Numeral.set, Numeral.get, newYear1900, localtime, hback]
  rw [daysOf_dateOfDays, if_pos rfl, Option.some.injEq]
  exact minute_begun t

/-- What the page shows is read back as the minute that has begun. -/
theorem strptime_localInput (hyear : fourDigitYear t) :
    strptime (localInput t) = some (wholeMinute t) := by
  have hscan : scan isoMinutes (print (localtime t) isoMinutes) newYear1900 =
      some (copy (localtime t) isoMinutes newYear1900) := scan_print fun p _ => localtime_prints hyear p
  simp only [strptime, dtFormats, localInput, String.toList_ofList, List.findSome?_cons, hscan,
    Option.bind_some, fromCurrentTimezone_localtime hyear]

/-- A year of another length is in none of `DT_FORMATS`. -/
theorem strptime_localInput_none (hyear : ¬ fourDigitYear t) : strptime (localInput t) = none := by
  have hscan : ∀ fmt, (scan (.num .year :: .lit '-' :: fmt) (print (localtime t) isoMinutes)
      newYear1900).bind fromCurrentTimezone = none := by
    intro fmt
    unfold isoMinutes
    rw [scan_print_year (by decide) hyear]
    rfl
  simp only [strptime, localInput, String.toList_ofList, dtFormats, List.findSome?_eq_none_iff,
    List.mem_cons, List.not_mem_nil, or_false]
  intro fmt hfmt
  rcases hfmt with rfl | rfl | rfl <;> exact hscan _

end Fields

section Texts
variable {c : Char} {s : String} {t : Time}

theorem isSpace_digit (h : c.isDigit = true) : isSpace c = false := by
  have hrange : 48 ≤ c.toNat ∧ c.toNat ≤ 57 := by
    simpa [Char.isDigit, UInt32.le_iff_toNat_le] using h
  simp [isSpace]
  omega

/-- A text without blanks is left as it is. -/
theorem strip_solid (h : ∀ c ∈ s.toList, isSpace c = false) : strip s = s := by
  have hkeep : ∀ l : List Char, (∀ c ∈ l, isSpace c = false) → l.dropWhile isSpace = l := by
    intro l hl
    cases l with
    | nil => rfl
    | cons c l => exact List.dropWhile_cons_of_neg (by simp [hl c List.mem_cons_self])
  rw [strip, hkeep _ h, hkeep _ fun c hc => h c (List.mem_reverse.mp hc), List.reverse_reverse,
    String.ofList_toList]

/-- There is nothing left to strip. -/
theorem strip_strip (s : String) : strip (strip s) = strip s := by
  let front := s.toList.dropWhile isSpace
  have hprefix : front.rdropWhile isSpace <+: front := List.rdropWhile_prefix ..
  have hfront : (front.rdropWhile isSpace).dropWhile isSpace = front.rdropWhile isSpace := by
    have hdropped : front.dropWhile isSpace = front := List.dropWhile_idempotent ..
    rw [List.dropWhile_eq_self_iff] at hdropped ⊢
    intro hl
    have hsame := hprefix.getElem hl
    rw [hsame]
    exact hdropped _
  have hback : (front.rdropWhile isSpace).rdropWhile isSpace = front.rdropWhile isSpace :=
    List.rdropWhile_idempotent ..
  have hstrip : strip s = String.ofList (front.rdropWhile isSpace) := rfl
  rw [hstrip, strip, String.toList_ofList, hfront]
  exact congrArg String.ofList hback

theorem localInput_solid : ∀ c ∈ (localInput t).toList, isSpace c = false := by
  intro c hc
  rw [localInput, String.toList_ofList] at hc
  rcases mem_print (fun p _ => localtime_admits p) hc with hdigit | hlit
  · exact isSpace_digit hdigit
  · simp only [isoMinutes, List.mem_cons, reduceCtorEq, Directive.lit.injEq, List.not_mem_nil,
      or_false, false_or] at hlit
    rcases hlit with rfl | rfl | rfl | rfl <;> decide

theorem localInput_ne : localInput t ≠ "" := by
  intro hempty
  have hchars := congrArg String.toList hempty
  rw [localInput, String.toList_ofList] at hchars
  simp [isoMinutes, print] at hchars

end Texts

section Inputs
variable {parseDatetime : String → Option Time} {t : Time}

/-- The framework's own reading of a text that the page shows is that of `DT_FORMATS`, if
it has any. -/
def ReadsAlike (parseDatetime : String → Option Time) : Prop :=
  ∀ t, parseDatetime (localInput t) = none ∨ parseDatetime (localInput t) = strptime (localInput t)

theorem readDateTime_localInput (hparse : ReadsAlike parseDatetime) :
    readDateTime parseDatetime (localInput t) = strptime (localInput t) := by
  rw [readDateTime, strip_solid localInput_solid]
  rcases hparse t with hnone | hsame
  · rw [hnone, Option.none_or]
  · rw [hsame, Option.or_self]

/-- A shown field that is submitted as it is reads back as the minute that has begun. -/
theorem readDateTime_shown (hparse : ReadsAlike parseDatetime) (hyear : fourDigitYear t) :
    readDateTime parseDatetime (localInput t) = some (wholeMinute t) :=
  (readDateTime_localInput hparse).trans (strptime_localInput hyear)

theorem readDateTime_shown_none (hparse : ReadsAlike parseDatetime) (hyear : ¬ fourDigitYear t) :
    readDateTime parseDatetime (localInput t) = none :=
  (readDateTime_localInput hparse).trans (strptime_localInput_none hyear)

theorem cleanDateTime_ok {text : String} (hne : text ≠ "")
    (h : readDateTime parseDatetime text = some t) :
    cleanDateTime parseDatetime (some text) = .ok (some t) := by
  simp [cleanDateTime, h]

theorem cleanDateTime_error {text : String} (hne : text ≠ "")
    (h : readDateTime parseDatetime text = none) :
    cleanDateTime parseDatetime (some text) = .error "Enter a valid date/time." := by
  simp [cleanDateTime, h]

end Inputs

end MbararaAuction
