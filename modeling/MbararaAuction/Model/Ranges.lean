import Mathlib.Algebra.Order.Ring.Nat
import Mathlib.Data.Prod.Lex
import MbararaAuction.Calendars.Zones
import MbararaAuction.Model.Control

namespace MbararaAuction
open Calendars

section Dates

/-- Dates are compared by year, then month, then day. -/
def Date.fields (d : Date) : Int ×ₗ Nat ×ₗ Nat := toLex (d.year, toLex (d.month, d.day))

theorem Date.fields_injective : Function.Injective Date.fields := by
  intro d e h
  cases d
  cases e
  simp only [Date.fields, EmbeddingLike.apply_eq_iff_eq, Prod.mk.injEq] at h
  simp only [Date.mk.injEq]
  exact h

instance : LinearOrder Date := LinearOrder.lift' Date.fields Date.fields_injective

/-- A date that `datetime.date` holds: it is on the calendar, and its year is in range. -/
def Date.onCalendar (d : Date) : Bool :=
  1 ≤ d.year && d.year ≤ 9999 && dateOfDays (daysOf d) == d

/-- `date.min`. -/
def Date.first : Date := ⟨1, 1, 1⟩

/-- `date.max`. -/
def Date.last : Date := ⟨9999, 12, 31⟩

/-- The day of the week, from Monday. -/
def weekday (days : Int) : Int := (days + 3) % 7

def isLeap (year : Int) : Bool := year % 4 == 0 && (year % 100 != 0 || year % 400 == 0)

/-- `iso_week1_monday`: the Monday of the week that has the first Thursday of the year. -/
def isoWeek1Monday (year : Int) : Int :=
  let newYear := daysOf ⟨year, 1, 1⟩
  let monday := newYear - weekday newYear
  if 3 < weekday newYear then monday + 7 else monday

/-- Whether a year has a 53rd week. -/
def isLongYear (year : Int) : Bool :=
  let first := weekday (daysOf ⟨year, 1, 1⟩)
  first == 3 || (first == 2 && isLeap year)

/-- `iso_to_ymd`. -/
def isoToYmd (year week day : Nat) : Option Date :=
  if year = 0 then none
  else if week = 0 ∨ 53 < week ∨ (week = 53 ∧ isLongYear year = false) then none
  else if day = 0 ∨ 7 < day then none
  else some (dateOfDays (isoWeek1Monday year + ((week - 1) * 7 + day - 1 : Nat)))

end Dates

section Texts

def scanDigit : List Char → Option (Nat × List Char)
  | c :: rest => (digit? c).map fun d => (d, rest)
  | [] => none

def scanTwo (text : List Char) : Option (Nat × List Char) := do
  let (tens, text) ← scanDigit text
  let (ones, rest) ← scanDigit text
  pure (10 * tens + ones, rest)

/-- The separator, where the text has used it before. -/
def scanSeparator (separated : Bool) (text : List Char) : Option (List Char) :=
  if separated then if text.head? = some '-' then some text.tail else none else some text

/-- The part of `parse_isoformat_date` after the letter `W`. -/
def scanWeekDate (year : Nat) (separated : Bool) (text : List Char) : Option Date := do
  let (week, text) ← scanTwo text
  if text = [] then isoToYmd year week 1
  else do
    let text ← scanSeparator separated text
    let (day, _) ← scanDigit text
    isoToYmd year week day

/-- The part of `parse_isoformat_date` from the month on. -/
def scanMonthDay (year : Nat) (separated : Bool) (text : List Char) : Option Date := do
  let (month, text) ← scanTwo text
  let text ← scanSeparator separated text
  let (day, _) ← scanTwo text
  pure ⟨year, month, day⟩

/-- `parse_isoformat_date`. It does not look at what follows the day. -/
def scanIsoDate (text : List Char) : Option Date := do
  let (year, text) ← scanYear text
  let separated := text.head? == some '-'
  match if separated then text.tail else text with
  | 'W' :: rest => scanWeekDate year separated rest
  | rest => scanMonthDay year separated rest

/-- The length of a text in UTF-8. -/
def utf8Length (text : List Char) : Nat := (text.map Char.utf8Size).sum

/-- `date.fromisoformat`, where it returns. -/
def fromisoformat (text : String) : Option Date :=
  if utf8Length text.toList ∈ [7, 8, 10] then (scanIsoDate text.toList).filter Date.onCalendar
  else none

end Texts

def parseDate (value : String) : Option Date := fromisoformat (strip value)

/-- `_RangeMixin.get_range`, on the query parameters `from` and `to`. -/
def getRange (rawFrom rawTo : String) : Option Date × Option Date × Bool :=
  let dateFrom := parseDate rawFrom
  let dateTo := parseDate rawTo
  let invalid := (rawFrom ≠ "" ∧ dateFrom = none) ∨ (rawTo ≠ "" ∧ dateTo = none)
  let crossed := ∃ d ∈ dateFrom, ∃ e ∈ dateTo, e < d
  if invalid ∨ crossed then (none, none, false) else (dateFrom, dateTo, true)

end MbararaAuction
