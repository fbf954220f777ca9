import MbararaAuction.Machine.BidBook
import MbararaAuction.Proofs.Dates
import MbararaAuction.Proofs.Figures

namespace MbararaAuction
open Calendars

section Specification

/-- The local date of an instant. -/
def localDate (z : Zone) (t : Time) : Date := dateOfDays (z.date t)

/-- The local date of `t` is in the range. A side without a date is open. -/
def onDates (z : Zone) (dateFrom dateTo : Option Date) (t : Time) : Bool :=
  dateFrom.all (fun d => d ≤ localDate z t) && dateTo.all fun d => localDate z t ≤ d

/-- The rows of a range of local dates. -/
def ReportTables.within (tables : ReportTables) (z : Zone) (dateFrom dateTo : Option Date) :
    Selection :=
  let chosen := onDates z dateFrom dateTo
  { auctions := tables.auctionPks.filter fun a => chosen (tables.auctionCreatedAt a)
    bids := tables.acceptedBids.filter fun x => chosen x.2.createdAt
    payments := (tables.rows Dossier.payments).filter fun x =>
      chosen (tables.paymentCreatedAt x.1 x.2.pk)
    disputes := (tables.rows Dossier.disputes).filter fun x =>
      chosen (tables.disputeCreatedAt x.1 x.2.pk) }

/-- The rows of `z` are those of `x` and those of `y`, each once. -/
structure Selection.Splits (x y z : Selection) : Prop where
  auctions : (x.auctions ++ y.auctions).Perm z.auctions
  bids : (x.bids ++ y.bids).Perm z.bids
  payments : (x.payments ++ y.payments).Perm z.payments
  disputes : (x.disputes ++ y.disputes).Perm z.disputes

/-- The driver sends every instant whose date in UTC is on the calendar. -/
def ReportServer.SendsCalendar (server : ReportServer) : Prop :=
  ∀ t, daysOf Date.first * 86400000000 ≤ t → t < (daysOf Date.last + 1) * 86400000000 →
    server.encodable t = true

/-- The three consumers of a range return, on exactly the rows of its local dates, and a
range that begins the day after it has the other rows of both. -/
structure RangeExact (server : ReportServer) (tables : ReportTables)
    (dateFrom dateTo : Option Date) : Prop where
  auctions : auctionsInRange server tables dateFrom dateTo =
    .ok (tables.within server.zone dateFrom dateTo).auctions
  payments : paymentsInRange server tables dateFrom dateTo =
    .ok (tables.within server.zone dateFrom dateTo).payments
  summary : ∃ s, buildSummary server tables dateFrom dateTo = .ok s ∧
    figures server tables (tables.within server.zone dateFrom dateTo) = .ok s
  consecutive : ∀ d ∈ dateTo, ∀ next laterTo rawFrom rawTo, nextDay d = .ok next →
    getRange rawFrom rawTo = (some next, laterTo, true) →
    (tables.within server.zone dateFrom dateTo).Splits
      (tables.within server.zone (some next) laterTo)
      (tables.within server.zone dateFrom laterTo)

end Specification

section Accepted
variable {rawFrom rawTo : String} {dateFrom dateTo : Option Date} {d : Date}

theorem parseDate_onCalendar {value : String} (h : parseDate value = some d) :
    d.onCalendar = true := by
  simp only [parseDate, fromisoformat] at h
  split at h
  · exact (Option.filter_eq_some_iff.mp h).2
  · cases h

/-- The dates of an accepted range are on the calendar, and in order. -/
theorem getRange_accepted (h : getRange rawFrom rawTo = (dateFrom, dateTo, true)) :
    (∀ d ∈ dateFrom, d.onCalendar = true) ∧ (∀ d ∈ dateTo, d.onCalendar = true) ∧
      ∀ d ∈ dateFrom, ∀ e ∈ dateTo, d ≤ e := by
  simp only [getRange] at h
  split at h
  · cases h
  · rename_i hvalid
    simp only [Prod.mk.injEq] at h
    obtain ⟨rfl, rfl, -⟩ := h
    refine ⟨fun d hd => parseDate_onCalendar hd, fun d hd => parseDate_onCalendar hd, ?_⟩
    intro d hd e he
    by_contra hcrossed
    exact hvalid (Or.inr ⟨d, hd, e, he, not_le.mp hcrossed⟩)

end Accepted

section Days
variable {z : Zone} {d next : Date} {n t : Int}

theorem nextDay_ok (hd : d.onCalendar = true) (hne : d ≠ Date.last) :
    nextDay d = .ok (dateOfDays (daysOf d + 1)) := by
  obtain ⟨hlow, hhigh⟩ := Date.onCalendar_days hd
  have hbefore : daysOf d ≠ daysOf Date.last := fun heq => hne (daysOf_inj hd (by decide) heq)
  have hyear : 1 ≤ (dateOfDays (daysOf d + 1)).year ∧ (dateOfDays (daysOf d + 1)).year ≤ 9999 := by
    rw [dateOfDays_year]
    omega
  rw [nextDay, if_pos hyear.2]

theorem nextDay_last :
    nextDay Date.last = .error (.overflowError "date value out of range") := by
  decide

/-- The dates from the next day on are those that are not up to the day. -/
theorem nextDay_le (hd : d.onCalendar = true) (h : nextDay d = .ok next) :
    next ≤ dateOfDays n ↔ ¬ dateOfDays n ≤ d := by
  simp only [nextDay] at h
  split at h
  · cases h
    rw [dateOfDays_le_iff, dateOfDays_le hd]
    omega
  · cases h

theorem midnight_le (hz : z.ChangesAtMidnight) (hd : d.onCalendar = true) :
    midnight z d ≤ t ↔ d ≤ localDate z t := by
  rw [midnight, Zone.start_le_iff hz, localDate, le_dateOfDays hd]

theorem lt_midnight (hz : z.ChangesAtMidnight) (hd : d.onCalendar = true) :
    t < midnight z (dateOfDays (daysOf d + 1)) ↔ localDate z t ≤ d := by
  rw [midnight, daysOf_dateOfDays, Zone.lt_start_iff hz, localDate, dateOfDays_le hd]
  omega

/-- Of the midnights of the calendar only the first may be out of reach. -/
theorem midnight_encodable {server : ReportServer} (hahead : server.zone.Ahead)
    (hsend : server.SendsCalendar) (hlow : daysOf Date.first < n) (hhigh : n ≤ daysOf Date.last) :
    server.encodable (server.zone.start n) = true := by
  have hbegin : server.zone.start n ≤ n * 86400000000 ∧
      (n - 1) * 86400000000 < server.zone.start n := Zone.start_ahead hahead
  apply hsend
  · omega
  · omega

end Days

section Queries
variable {α : Type} {server : ReportServer} {rows : List α} {createdAt : α → Time}
  {range : Option Time × Option Time}

theorem filterAt_ok {p : Time → α → Bool} {t : Option Time}
    (h : ∀ u ∈ t, server.encodable u = true) :
    filterAt server p t rows = .ok (rows.filter fun x => t.all fun u => p u x) := by
  cases t with
  | none => simp [filterAt]
  | some u => simp [filterAt, h u rfl]

theorem inRange_ok (hstart : ∀ u ∈ range.1, server.encodable u = true)
    (hfinish : ∀ u ∈ range.2, server.encodable u = true) :
    inRange server createdAt rows range = .ok (rows.filter fun x =>
      range.1.all (fun u => u ≤ createdAt x) && range.2.all fun u => createdAt x < u) := by
  rw [inRange, filterAt_ok hstart, report_ok_bind, filterAt_ok hfinish, List.filter_filter]
  simp only [Bool.and_comm]

/-- A bound that the driver does not send stops the query. -/
theorem inRange_error {u : Time} (hu : range.1 = some u) (h : server.encodable u = false) :
    inRange server createdAt rows range =
      .error (.overflowError "date value out of range") := by
  simp [inRange, filterAt, hu, h]
  rfl

/-- Rows that are split by one condition. -/
theorem filter_split {p q r s : α → Bool} (hp : ∀ x, p x = (s x && r x))
    (hq : ∀ x, q x = (!s x && r x)) : (rows.filter p ++ rows.filter q).Perm (rows.filter r) := by
  have hsplit := List.filter_append_perm s (rows.filter r)
  rw [List.filter_filter, List.filter_filter] at hsplit
  rwa [List.filter_congr fun x _ => hp x, List.filter_congr fun x _ => hq x]

end Queries

section Exact
variable {server : ReportServer} {tables : ReportTables} {z : Zone}
  {dateFrom dateTo laterTo : Option Date} {d next : Date}

theorem bounds_ok (hto : ∀ d ∈ dateTo, d.onCalendar = true) (hlast : dateTo ≠ some Date.last) :
    bounds z dateFrom dateTo = .ok (dateFrom.map (midnight z),
      dateTo.map fun d => midnight z (dateOfDays (daysOf d + 1))) := by
  cases dateTo with
  | none => rfl
  | some d =>
    have hne : d ≠ Date.last := fun heq => hlast (congrArg some heq)
    simp only [bounds, nextDay_ok (hto d rfl) hne]
    rfl

theorem bounds_onDates (hz : z.ChangesAtMidnight) (hfrom : ∀ d ∈ dateFrom, d.onCalendar = true)
    (hto : ∀ d ∈ dateTo, d.onCalendar = true) (t : Time) :
    ((dateFrom.map (midnight z)).all (fun u => u ≤ t) &&
      (dateTo.map fun d => midnight z (dateOfDays (daysOf d + 1))).all fun u => t < u) =
      onDates z dateFrom dateTo t := by
  unfold onDates
  congr 1
  · cases dateFrom with
    | none => rfl
    | some d => simpa using midnight_le hz (hfrom d rfl)
  · cases dateTo with
    | none => rfl
    | some d => simpa using lt_midnight hz (hto d rfl)

/-- Where both bounds can be computed and sent, they select the rows of the local dates. -/
theorem range_selects (hz : server.zone.ChangesAtMidnight) (hahead : server.zone.Ahead)
    (hsend : server.SendsCalendar) (hfrom : ∀ d ∈ dateFrom, d.onCalendar = true)
    (hto : ∀ d ∈ dateTo, d.onCalendar = true) (hlast : dateTo ≠ some Date.last)
    (hfirst : dateFrom = some Date.first →
      server.encodable (midnight server.zone Date.first) = true) :
    ∃ range, bounds server.zone dateFrom dateTo = .ok range ∧
      ∀ {α : Type} (createdAt : α → Time) (rows : List α),
        inRange server createdAt rows range =
          .ok (rows.filter fun x => onDates server.zone dateFrom dateTo (createdAt x)) := by
  refine ⟨_, bounds_ok hto hlast, ?_⟩
  intro α createdAt rows
  rw [inRange_ok]
  · simp only [bounds_onDates hz hfrom hto]
  · intro u hu
    obtain ⟨d, hd, rfl⟩ := Option.mem_map.mp hu
    by_cases hmin : d = Date.first
    · subst hmin
      exact hfirst hd
    · obtain ⟨hlow, hhigh⟩ := Date.onCalendar_days (hfrom d hd)
      have hne : daysOf d ≠ daysOf Date.first :=
        fun heq => hmin (daysOf_inj (hfrom d hd) (by decide) heq)
      exact midnight_encodable hahead hsend (by omega) hhigh
  · intro u hu
    obtain ⟨d, hd, rfl⟩ := Option.mem_map.mp hu
    obtain ⟨hlow, hhigh⟩ := Date.onCalendar_days (hto d hd)
    have hne : daysOf d ≠ daysOf Date.last := by
      intro heq
      apply hlast
      rw [Option.mem_def.mp hd, daysOf_inj (hto d hd) (by decide) heq]
    rw [midnight, daysOf_dateOfDays]
    exact midnight_encodable hahead hsend (by omega) (by omega)

/-- A range, and one that begins the day after it. -/
theorem within_splits (hfrom : ∀ d' ∈ dateFrom, d' ≤ d) (hd : d.onCalendar = true)
    (hnext : nextDay d = .ok next) (hto : ∀ d' ∈ laterTo, next ≤ d') :
    (tables.within z dateFrom (some d)).Splits (tables.within z (some next) laterTo)
      (tables.within z dateFrom laterTo) := by
  have hle : ∀ t, next ≤ localDate z t ↔ ¬ localDate z t ≤ d := fun t => nextDay_le hd hnext
  have hlt : d < next := by
    have hself := nextDay_le (n := daysOf d) hd hnext
    rw [dateOfDays_daysOf hd] at hself
    exact not_le.mp fun h => hself.mp h le_rfl
  have hbefore : ∀ t, onDates z dateFrom (some d) t =
      (decide (localDate z t ≤ d) && onDates z dateFrom laterTo t) := by
    intro t
    rw [Bool.eq_iff_iff]
    simp only [onDates, Option.all_some, Bool.and_eq_true, decide_eq_true_eq, Option.all_eq_true]
    constructor
    · intro h
      obtain ⟨hlow, hhigh⟩ := h
      exact ⟨hhigh, hlow, fun e he => hhigh.trans (hlt.le.trans (hto e he))⟩
    · intro h
      obtain ⟨hhigh, hlow, -⟩ := h
      exact ⟨hlow, hhigh⟩
  have hafter : ∀ t, onDates z (some next) laterTo t =
      (!decide (localDate z t ≤ d) && onDates z dateFrom laterTo t) := by
    intro t
    rw [Bool.eq_iff_iff]
    simp only [onDates, Option.all_some, Bool.and_eq_true, decide_eq_true_eq, Option.all_eq_true,
      Bool.not_eq_true', decide_eq_false_iff_not, hle]
    constructor
    · intro h
      obtain ⟨hlow, hhigh⟩ := h
      exact ⟨hlow, fun e he => (hfrom e he).trans (not_le.mp hlow).le, hhigh⟩
    · intro h
      obtain ⟨hlow, -, hhigh⟩ := h
      exact ⟨hlow, hhigh⟩
  constructor
  case auctions => exact filter_split (fun x => hbefore _) fun x => hafter _
  case bids => exact filter_split (fun x => hbefore _) fun x => hafter _
  case payments => exact filter_split (fun x => hbefore _) fun x => hafter _
  case disputes => exact filter_split (fun x => hbefore _) fun x => hafter _

theorem overflow_of_last : auctionsInRange server tables dateFrom (some Date.last) =
    .error (.overflowError "date value out of range") := by
  simp only [auctionsInRange, bounds, nextDay_last]
  rfl

theorem overflow_of_first (hlast : dateTo ≠ some Date.last)
    (hto : ∀ d ∈ dateTo, d.onCalendar = true)
    (h : server.encodable (midnight server.zone Date.first) = false) :
    auctionsInRange server tables (some Date.first) dateTo =
      .error (.overflowError "date value out of range") := by
  rw [auctionsInRange, bounds_ok hto hlast]
  exact inRange_error rfl h

end Exact

section Totality

/-- The offsets of Africa/Kampala: local mean time, and the standard times since 1928. -/
def africaKampala : Zone where
  offset := 7780000000
  changes :=
    [⟨-1309745380000000, 10800000000⟩, ⟨-1262314800000000, 9000000000⟩,
      ⟨-694319400000000, 9900000000⟩, ⟨-410237100000000, 10800000000⟩]

/-- The other pages count three hours for the zone, as it has been since 1957. -/
theorem africaKampala_wall {t : Int} (h : -410237100000000 ≤ t) :
    africaKampala.wall t = kampala t := by
  simp only [Zone.wall, africaKampala, offsetFrom, kampala]
  split_ifs <;> omega

/-- A server whose driver sends all instants. -/
def sampleServer : ReportServer := ⟨africaKampala, fun _ => true, fun s t => s ≤ t⟩

def sampleTables : ReportTables :=
  { sampleDatabase with
    categoryName := fun _ => "Cattle"
    auctionCreatedAt := fun _ => 0
    paymentCreatedAt := fun _ _ => 0
    disputeCreatedAt := fun _ _ => 0
    pricesFit := by
      intro a _ m h
      cases h }

/-- The reports of an accepted range return, with the rows of its local dates, except for a
range up to the last date of the calendar. One from its first date also needs a driver
that sends the beginning of that date. -/
theorem date_ranges_exact_iff (server : ReportServer) (tables : ReportTables)
    (rawFrom rawTo : String) (dateFrom dateTo : Option Date)
    (hzone : server.zone.ChangesAtMidnight) (hahead : server.zone.Ahead)
    (hsend : server.SendsCalendar)
    (haccepted : getRange rawFrom rawTo = (dateFrom, dateTo, true)) :
    RangeExact server tables dateFrom dateTo ↔
      dateTo ≠ some Date.last ∧
        (dateFrom = some Date.first →
          server.encodable (midnight server.zone Date.first) = true) := by
  obtain ⟨hfrom, hto, horder⟩ := getRange_accepted haccepted
  constructor
  · intro hexact
    have hlast : dateTo ≠ some Date.last := by
      intro hlast
      have hreturned := hexact.auctions
      rw [hlast, overflow_of_last] at hreturned
      cases hreturned
    refine ⟨hlast, ?_⟩
    intro hfirst
    by_contra hlost
    have hreturned := hexact.auctions
    rw [hfirst, overflow_of_first hlast hto (Bool.not_eq_true _ ▸ hlost)] at hreturned
    cases hreturned
  · intro hreached
    obtain ⟨hlast, hfirst⟩ := hreached
    obtain ⟨range, hrange, hselect⟩ :=
      range_selects hzone hahead hsend hfrom hto hlast hfirst
    have hauctions : auctionsInRange server tables dateFrom dateTo =
        .ok (tables.within server.zone dateFrom dateTo).auctions := by
      rw [auctionsInRange, hrange]
      exact hselect _ _
    have hpayments : paymentsInRange server tables dateFrom dateTo =
        .ok (tables.within server.zone dateFrom dateTo).payments := by
      rw [paymentsInRange, hrange]
      exact hselect _ _
    constructor
    case auctions => exact hauctions
    case payments => exact hpayments
    case summary =>
      have hrows : ∀ a ∈ (tables.within server.zone dateFrom dateTo).auctions,
          a ∈ tables.auctionPks := fun a ha => (List.mem_filter.mp ha).1
      obtain ⟨s, hs⟩ := figures_ok server hrows
      refine ⟨s, ?_, hs⟩
      simp only [buildSummary, hrange, hauctions, hpayments, hselect, report_ok_bind]
      exact hs
    case consecutive =>
      intro d hd next laterTo rawFrom' rawTo' hnext hlater
      obtain ⟨-, -, hlaterOrder⟩ := getRange_accepted hlater
      rw [Option.mem_def.mp hd]
      exact within_splits (fun d' hd' => horder d' hd' d hd) (hto d hd) hnext
        fun e he => hlaterOrder next rfl e he

theorem sampleServer_sends : sampleServer.SendsCalendar := fun _ _ _ => rfl

theorem sampleServer_midnights : sampleServer.zone.ChangesAtMidnight := by
  unfold Zone.ChangesAtMidnight
  decide

theorem sampleServer_ahead : sampleServer.zone.Ahead := by
  unfold Zone.Ahead
  decide

theorem date_ranges_exact_sample : RangeExact sampleServer sampleTables (some ⟨2024, 2, 29⟩)
    (some ⟨2024, 2, 29⟩) := by
  have haccepted : getRange "2024-02-29" " 20240229" =
      (some ⟨2024, 2, 29⟩, some ⟨2024, 2, 29⟩, true) := by decide
  have hexact := date_ranges_exact_iff sampleServer sampleTables _ _ _ _ sampleServer_midnights
    sampleServer_ahead sampleServer_sends haccepted
  apply hexact.mpr
  decide

/-- The day after the last date does not exist, although the range may end with it. -/
theorem last_date_overflows :
    getRange "" "9999-12-31" = (none, some Date.last, true) ∧
      auctionsInRange sampleServer sampleTables none (some Date.last) =
        .error (.overflowError "date value out of range") ∧
      paymentsInRange sampleServer sampleTables none (some Date.last) =
        .error (.overflowError "date value out of range") ∧
      buildSummary sampleServer sampleTables none (some Date.last) =
        .error (.overflowError "date value out of range") := by
  refine ⟨by decide, ?_, ?_, ?_⟩ <;> rfl

end Totality

end MbararaAuction
