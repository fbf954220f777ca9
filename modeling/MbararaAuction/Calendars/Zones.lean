import Mathlib.Algebra.Order.Group.Unbundled.Int
import Mathlib.Data.Int.Basic

namespace Calendars

/-- A change of a time zone: from the instant on, local time is ahead of UTC by the
offset. Instants and offsets are in microseconds. -/
structure Change where
  instant : Int
  offset : Int
deriving DecidableEq, Repr

/-- A time zone: the offset before the first change, and the changes in order. -/
structure Zone where
  offset : Int
  changes : List Change
deriving DecidableEq, Repr

/-- The offset in force at an instant. -/
def offsetFrom (offset : Int) : List Change → Int → Int
  | [], _ => offset
  | c :: rest, t => if t < c.instant then offset else offsetFrom c.offset rest t

/-- The instant at which clocks show `x`. Where they show it twice it is the first time,
and where they skip it the offset before the change counts. -/
def resolveFrom (offset : Int) : List Change → Int → Int
  | [], x => x - offset
  | c :: rest, x =>
    if x < c.instant + max offset c.offset then x - offset else resolveFrom c.offset rest x

/-- Every change comes after the one before it, when the clocks reach midnight, and is by
less than a day. -/
def MidnightsFrom (offset : Int) : List Change → Prop
  | [] => True
  | c :: rest =>
    86400000000 ∣ c.instant + offset ∧ c.offset < offset + 86400000000 ∧
      offset < c.offset + 86400000000 ∧ (∀ later ∈ rest, c.instant < later.instant) ∧
      MidnightsFrom c.offset rest

namespace Zone

/-- What clocks show at an instant. -/
def wall (z : Zone) (t : Int) : Int := t + offsetFrom z.offset z.changes t

/-- The local date of an instant, in days since 1970-01-01. -/
def date (z : Zone) (t : Int) : Int := z.wall t / 86400000000

/-- The instant of the midnight with which a date begins. -/
def start (z : Zone) (days : Int) : Int := resolveFrom z.offset z.changes (days * 86400000000)

/-- The zone changes at midnights only. -/
def ChangesAtMidnight (z : Zone) : Prop := MidnightsFrom z.offset z.changes

/-- Local time is ahead of UTC, by less than a day. -/
def Ahead (z : Zone) : Prop :=
  0 ≤ z.offset ∧ z.offset < 86400000000 ∧
    ∀ c ∈ z.changes, 0 ≤ c.offset ∧ c.offset < 86400000000

end Zone

section Midnights
variable {offset s x t : Int} {changes : List Change}

instance MidnightsFrom.decidable : (offset : Int) → (changes : List Change) →
    Decidable (MidnightsFrom offset changes)
  | _, [] => .isTrue trivial
  | offset, c :: rest =>
    have : Decidable (MidnightsFrom c.offset rest) := MidnightsFrom.decidable c.offset rest
    inferInstanceAs (Decidable (86400000000 ∣ c.instant + offset ∧ _))

/-- A midnight that clocks have reached at `s` stays behind them. -/
theorem midnight_passed (h : MidnightsFrom offset changes)
    (hlater : ∀ c ∈ changes, s < c.instant) (hx : 86400000000 ∣ x) (hreached : x ≤ s + offset)
    (hst : s ≤ t) : x ≤ t + offsetFrom offset changes t := by
  induction changes generalizing offset s with
  | nil =>
    simp only [offsetFrom]
    omega
  | cons c rest ih =>
    obtain ⟨hmidnight, -, hback, horder, hrest⟩ := h
    have hc : s < c.instant := hlater c List.mem_cons_self
    simp only [offsetFrom]
    split
    · omega
    · -- The change is at a later midnight, and does not take a day off.
      apply ih hrest horder
      · omega
      · omega

/-- A time that clocks show after `s` is at `s` or later. -/
theorem resolve_later (hlater : ∀ c ∈ changes, s < c.instant) (h : MidnightsFrom offset changes)
    (hx : s + offset ≤ x) : s ≤ resolveFrom offset changes x := by
  induction changes generalizing offset s with
  | nil =>
    simp only [resolveFrom]
    omega
  | cons c rest ih =>
    obtain ⟨-, -, -, horder, hrest⟩ := h
    have hc : s < c.instant := hlater c List.mem_cons_self
    simp only [resolveFrom]
    split
    · omega
    · have hstep : c.instant ≤ resolveFrom c.offset rest x := by
        apply ih horder hrest
        omega
      omega

/-- The instant of a midnight has come exactly when clocks have reached it. -/
theorem resolve_midnight_le (h : MidnightsFrom offset changes) (hx : 86400000000 ∣ x) :
    resolveFrom offset changes x ≤ t ↔ x ≤ t + offsetFrom offset changes t := by
  induction changes generalizing offset with
  | nil =>
    simp only [resolveFrom, offsetFrom]
    omega
  | cons c rest ih =>
    obtain ⟨hmidnight, hforward, hback, horder, hrest⟩ := h
    simp only [resolveFrom, offsetFrom]
    by_cases hbefore : x < c.instant + max offset c.offset
    · rw [if_pos hbefore]
      by_cases ht : t < c.instant
      · rw [if_pos ht]
        omega
      · rw [if_neg ht]
        -- Both sides hold: no midnight lies between the change and the end of its gap.
        have hpassed : x ≤ t + offsetFrom c.offset rest t := by
          apply midnight_passed hrest horder hx
          · omega
          · omega
        omega
    · rw [if_neg hbefore]
      by_cases ht : t < c.instant
      · rw [if_pos ht]
        have hlate : c.instant ≤ resolveFrom c.offset rest x := by
          apply resolve_later horder hrest
          omega
        omega
      · rw [if_neg ht]
        exact ih hrest

end Midnights

section Dates
variable {z : Zone} {days t : Int}

/-- A date has begun exactly at the instants of that local date and of later ones. -/
theorem Zone.start_le_iff (h : z.ChangesAtMidnight) : z.start days ≤ t ↔ days ≤ z.date t := by
  rw [Zone.start, resolve_midnight_le h (Int.dvd_mul_left ..), Zone.date,
    Int.le_ediv_iff_mul_le (by decide)]
  rfl

theorem Zone.lt_start_iff (h : z.ChangesAtMidnight) : t < z.start days ↔ z.date t < days := by
  rw [← Int.not_le, start_le_iff h, Int.not_le]

theorem resolve_ahead {offset x : Int} {changes : List Change} (hlow : 0 ≤ offset)
    (hhigh : offset < 86400000000)
    (h : ∀ c ∈ changes, 0 ≤ c.offset ∧ c.offset < 86400000000) :
    resolveFrom offset changes x ≤ x ∧ x - 86400000000 < resolveFrom offset changes x := by
  induction changes generalizing offset with
  | nil =>
    simp only [resolveFrom]
    omega
  | cons c rest ih =>
    obtain ⟨hc, hc'⟩ := h c List.mem_cons_self
    simp only [resolveFrom]
    split
    · omega
    · exact ih hc hc' fun later hlater => h later (List.mem_cons_of_mem c hlater)

/-- A date begins in the day before its midnight in UTC. -/
theorem Zone.start_ahead (h : z.Ahead) :
    z.start days ≤ days * 86400000000 ∧ (days - 1) * 86400000000 < z.start days := by
  obtain ⟨hlow, hhigh, hchanges⟩ := h
  obtain ⟨hle, hlt⟩ := resolve_ahead (x := days * 86400000000) hlow hhigh hchanges
  unfold Zone.start
  omega

end Dates

end Calendars
