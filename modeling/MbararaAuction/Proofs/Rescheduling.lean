import MbararaAuction.Proofs.Effects
import MbararaAuction.Proofs.LocalTimes
import MbararaAuction.Proofs.Served

namespace MbararaAuction
open Transactions

seal Tx.Exec

section Service
variable {a : AuctionId} {actor : UserId} {reason : String} {startTime endTime : Option Time}
variable {s s' : Database}

/-- What `reschedule` asks of the row and of the times it is given. -/
structure Reschedulable (row : Auction) (t : Time) (startTime endTime : Option Time) : Prop where
  movable : schedulable row.status = true
  given : ¬ (startTime = none ∧ endTime = none)
  unstarted : ¬ (startTime ≠ none ∧ row.status ≠ .scheduled)
  ordered : startTime.getD row.startTime < endTime.getD row.endTime
  unended : t < endTime.getD row.endTime
  ahead : ¬ (row.status = .scheduled ∧ startTime ≠ none ∧ startTime.getD row.startTime ≤ t)
  extended : ¬ (row.status = .live ∧ endTime ≠ none ∧ endTime.getD row.endTime ≤ row.endTime)

theorem reschedule_ok {row : Auction}
    (h : (reschedule a actor reason startTime endTime).Exec Exact s (.ok row) s') :
    Reschedulable (s.dossier a).row s.clock startTime endTime := by
  simp only [reschedule, exec_ofExcept_bind, exec_lockedAuction_bind, exec_refuse_bind,
    exec_now_bind, exists_exact, reduceCtorEq, false_and, and_false, false_or, exists_false] at h
  obtain ⟨_, _, hopen, hgiven, hstart, horder, hend, hahead, hlive, _⟩ := h
  exact ⟨Bool.eq_true_of_not_eq_false hopen, hgiven, hstart, not_le.mp horder, not_le.mp hend, hahead,
    hlive⟩

/-- With a reason, `reschedule` refuses nothing else. -/
theorem reschedule_error {e : PyError} (hreason : strip reason ≠ "")
    (h : (reschedule a actor reason startTime endTime).Exec Exact s (.error e) s') :
    ¬ Reschedulable (s.dossier a).row s.clock startTime endTime := by
  intro hok
  have hgood : needReason reason = .ok (strip reason) := by
    rw [needReason, if_neg hreason]
  simp only [reschedule, exec_ofExcept_bind, hgood, exec_lockedAuction_bind, exec_refuse_bind,
    exec_now_bind, exists_exact, exec_saveAuction_bind, hok.movable, hok.given, hok.unstarted,
    not_le.mpr hok.ordered, not_le.mpr hok.unended, hok.ahead, hok.extended, Bool.true_eq_false,
    reduceCtorEq, false_and, exists_false, false_or, not_false_eq_true, true_and] at h
  obtain ⟨_, _, h⟩ := h
  obtain ⟨_, _, _, h⟩ := (quiet_record ..).skip h
  exact absurd (exec_then_pure_error h) (quiet_notifyAuctionUpdate ..).no_error

end Service

section View
variable {parseDatetime : String → Option Time} {w : World Database Nat} {a : AuctionId} {u : UserId}

/-- Alone, `reschedule` moves the times. -/
theorem reschedule_moves {reason : String} {startTime endTime : Option Time}
    (hreason : strip reason ≠ "")
    (hok : Reschedulable (w.db.dossier a).row w.db.clock startTime endTime) :
    ∃ v w', (ServiceTx.reschedule a u reason startTime endTime).alone.run engine w = (.ok v, w') ∧
      (w'.db.dossier a).row = (w.db.dossier a).row.withTimes
        (startTime.getD (w.db.dossier a).row.startTime)
        (endTime.getD (w.db.dossier a).row.endTime) := by
  obtain ⟨v, w', hrun, hx⟩ := atomic_ok (p := engine.prog (.reschedule a u reason startTime endTime))
    (w := w) fun e s hx => absurd hok (reschedule_error hreason (exec_then_pure_error hx))
  obtain ⟨_, hdone⟩ := exec_map_ok hx
  obtain ⟨_, _, hwrites⟩ := reschedule_writes hdone
  refine ⟨v, w', (alone_run ..).trans hrun, ?_⟩
  rw [hwrites.became.here]
  rfl

/-- Or it refuses, and the auction stays as it is. -/
theorem reschedule_refuses (u : UserId) (reason : String) {startTime endTime : Option Time}
    (hnot : ¬ Reschedulable (w.db.dossier a).row w.db.clock startTime endTime) :
    ∃ e w', (ServiceTx.reschedule a u reason startTime endTime).alone.run engine w = (.error e, w') ∧
      w'.db = w.db := by
  rcases atomic_cases (engine.prog (.reschedule a u reason startTime endTime)) w with
    ⟨_, _, _, hx⟩ | ⟨e, w', _, hrun, hsame, _⟩
  · obtain ⟨_, hdone⟩ := exec_map_ok hx
    exact absurd (reschedule_ok hdone) hnot
  · exact ⟨e, w', (alone_run ..).trans hrun, hsame⟩

theorem view_error {post : ReschedulePost} {e : PyError}
    (hofficer : (w.db.users u).isOfficerOrAdmin = true) (hpk : a ∈ w.db.auctionPks)
    (h : rescheduleForm parseDatetime post = .error e) :
    (rescheduleView parseDatetime a u post).run engine w = (.error e, w) := by
  simp only [rescheduleView, Task.run, hofficer, hpk, h, Bool.true_eq_false, not_true_eq_false,
    ↓reduceIte]

theorem view_ok {post : ReschedulePost} {form : RescheduleForm}
    (hofficer : (w.db.users u).isOfficerOrAdmin = true) (hpk : a ∈ w.db.auctionPks)
    (h : rescheduleForm parseDatetime post = .ok form) :
    (rescheduleView parseDatetime a u post).run engine w =
      (ServiceTx.reschedule a u form.reason form.startTime form.endTime).alone.run engine w := by
  simp only [rescheduleView, Task.run, hofficer, hpk, h, Bool.true_eq_false, not_true_eq_false,
    ↓reduceIte, Call.body]

theorem form_ok {post : ReschedulePost} {startTime endTime : Option Time} {text : String}
    (hstart : cleanDateTime parseDatetime post.startTime = .ok startTime)
    (hend : cleanDateTime parseDatetime post.endTime = .ok endTime)
    (hreason : cleanReason post.reason = .ok text) :
    rescheduleForm parseDatetime post = .ok ⟨startTime, endTime, text⟩ := by
  simp only [rescheduleForm, hstart, hend, hreason]

/-- A form is valid only where each of its fields is. -/
theorem form_ok_fields {post : ReschedulePost} {form : RescheduleForm}
    (h : rescheduleForm parseDatetime post = .ok form) :
    cleanDateTime parseDatetime post.startTime = .ok form.startTime ∧
      cleanDateTime parseDatetime post.endTime = .ok form.endTime ∧
      cleanReason post.reason = .ok form.reason := by
  unfold rescheduleForm at h
  split at h
  · rename_i hstart hend hreason
    cases h
    exact ⟨hstart, hend, hreason⟩
  · cases h

theorem textErrors_nil {maxLength : Nat} {text : String} :
    textErrors maxLength text = [] ↔ text.length ≤ maxLength ∧ nul ∉ text.toList := by
  unfold textErrors
  rw [List.append_eq_nil_iff, ← not_lt]
  by_cases hlong : maxLength < text.length
  · simp [hlong]
  · by_cases hnul : nul ∈ text.toList
    · simp [hnul]
    · simp [hlong, hnul]

/-- A text is accepted exactly where it is neither blank nor too long and holds no NUL. -/
theorem cleanText_iff {maxLength : Nat} {value text : String} :
    cleanText maxLength value = .ok text ↔
      text = strip value ∧ text ≠ "" ∧ text.length ≤ maxLength ∧ nul ∉ text.toList := by
  rw [← textErrors_nil, cleanText]
  constructor
  · intro h
    split at h
    · cases h
    · next hne =>
      split at h
      · next hvalid =>
        cases h
        exact ⟨rfl, hne, hvalid⟩
      · cases h
  · intro h
    obtain ⟨rfl, hne, hvalid⟩ := h
    rw [if_neg hne, if_pos hvalid]

theorem cleanReason_ok {value text : String} (h : cleanReason value = .ok text) :
    strip text ≠ "" := by
  obtain ⟨rfl, hne, _⟩ := cleanText_iff.mp h
  rw [strip_strip]
  exact hne

end View

section Submission

/-- The time is shown to the minute, and is one. -/
def ReadsBack (t : Time) : Prop := fourDigitYear t ∧ wholeMinute t = t

/-- The start that the page submits unedited: only a scheduled auction shows one. -/
def submittedStart (row : Auction) : Option Time :=
  if row.status = .scheduled then some (wholeMinute row.startTime) else none

/-- The form is accepted as it stands. -/
def Resubmits (row : Auction) (t : Time) : Prop :=
  (row.status = .scheduled → fourDigitYear row.startTime) ∧ fourDigitYear row.endTime ∧
    Reschedulable row t (submittedStart row) (some (wholeMinute row.endTime))

/-- What the page shows says all that the row holds, where it matters: with a new end, the
start of a scheduled auction, which must also lie ahead; with the form as it stands, all
that it shows, unless the request is refused. -/
structure ShownExactly (row : Auction) (t : Time) (newEnd : Option String) : Prop where
  moved : newEnd ≠ none → row.status = .scheduled → ReadsBack row.startTime ∧ t < row.startTime
  resubmitted : newEnd = none → Resubmits row t →
    (row.status = .scheduled → wholeMinute row.startTime = row.startTime) ∧
      wholeMinute row.endTime = row.endTime

/-- Only what was edited is changed, and a new end alone is not refused. -/
structure OnlyEdited (a : AuctionId) (newEnd : Option String) (reason : String)
    (w : World Database Nat) (r : Except PyError Value × World Database Nat) : Prop where
  start : (r.2.db.dossier a).row.startTime = (w.db.dossier a).row.startTime
  ending : newEnd = none → (r.2.db.dossier a).row.endTime = (w.db.dossier a).row.endTime
  moved : newEnd ≠ none → (∃ text, cleanReason reason = .ok text) → ∃ v, r.1 = .ok v

variable {parseDatetime : String → Option Time} {row : Auction} {newEnd : Option String}
variable {reason : String}

theorem wholeMinute_le (t : Time) : wholeMinute t ≤ t := by
  unfold wholeMinute
  lia

theorem submit_start (hparse : ReadsAlike parseDatetime)
    (hyear : row.status = .scheduled → fourDigitYear row.startTime) :
    cleanDateTime parseDatetime ((controlPage row).submit newEnd reason).startTime =
      .ok (submittedStart row) := by
  by_cases hscheduled : row.status = .scheduled
  · have hread := readDateTime_shown hparse (hyear hscheduled)
    simp only [ControlPage.submit, controlPage, submittedStart, hscheduled, beq_self_eq_true,
      ↓reduceIte]
    exact cleanDateTime_ok localInput_ne hread
  · have hhidden : (row.status == .scheduled) = false := beq_eq_false_iff_ne.mpr hscheduled
    simp only [ControlPage.submit, controlPage, submittedStart, hscheduled, hhidden,
      Bool.false_eq_true, ↓reduceIte]
    rfl

theorem submit_start_year (hparse : ReadsAlike parseDatetime) {startTime : Option Time}
    (h : cleanDateTime parseDatetime ((controlPage row).submit newEnd reason).startTime =
      .ok startTime) (hscheduled : row.status = .scheduled) : fourDigitYear row.startTime := by
  by_contra hyear
  have hread := readDateTime_shown_none hparse hyear
  simp only [ControlPage.submit, controlPage, hscheduled, beq_self_eq_true, ↓reduceIte] at h
  rw [cleanDateTime_error localInput_ne hread] at h
  cases h

/-- The form as it stands is valid when its years are, and then it says the minutes. -/
theorem unedited_form (hparse : ReadsAlike parseDatetime) {text : String}
    (hreason : cleanReason reason = .ok text)
    (hstart : row.status = .scheduled → fourDigitYear row.startTime)
    (hend : fourDigitYear row.endTime) :
    rescheduleForm parseDatetime ((controlPage row).submit none reason) =
      .ok ⟨submittedStart row, some (wholeMinute row.endTime), text⟩ :=
  form_ok (submit_start hparse hstart)
    (cleanDateTime_ok localInput_ne (readDateTime_shown hparse hend)) hreason

theorem unedited_form_years (hparse : ReadsAlike parseDatetime) {form : RescheduleForm}
    (h : rescheduleForm parseDatetime ((controlPage row).submit none reason) = .ok form) :
    (row.status = .scheduled → fourDigitYear row.startTime) ∧ fourDigitYear row.endTime := by
  obtain ⟨hstart, hend, _⟩ := form_ok_fields h
  refine ⟨submit_start_year hparse hstart, ?_⟩
  by_contra hyear
  have hread := readDateTime_shown_none hparse hyear
  simp only [ControlPage.submit, controlPage, Option.getD_none] at hend
  rw [cleanDateTime_error localInput_ne hread] at hend
  cases hend

theorem submittedStart_same : (submittedStart row).getD row.startTime = row.startTime ↔
    (row.status = .scheduled → wholeMinute row.startTime = row.startTime) := by
  unfold submittedStart
  split
  · next hscheduled => exact ⟨fun h _ => h, fun h => h hscheduled⟩
  · next hother => exact iff_of_true rfl fun h => absurd h hother

variable {w : World Database Nat} {a : AuctionId} {u : UserId}

/-- A new end that is later than the stored one, the start and the clock. -/
def LaterEnd (parseDatetime : String → Option Time) (row : Auction) (t : Time) (text : String) :
    Prop :=
  ∃ e, cleanDateTime parseDatetime (some text) = .ok (some e) ∧ row.endTime < e ∧
    row.startTime < e ∧ t < e

/-- The form as it stands: what is not refused is rounded down to the minute. -/
theorem resubmission_iff (hparse : ReadsAlike parseDatetime)
    (hofficer : (w.db.users u).isOfficerOrAdmin = true) (hpk : a ∈ w.db.auctionPks) {text : String}
    (hreason : cleanReason reason = .ok text) :
    OnlyEdited a none reason w ((rescheduleView parseDatetime a u
        ((controlPage (w.db.dossier a).row).submit none reason)).run engine w) ↔
      ShownExactly (w.db.dossier a).row w.db.clock none := by
  let row := (w.db.dossier a).row
  have hquiet : (∀ r : Except PyError Value × World Database Nat, (r.2.db.dossier a).row = row →
      OnlyEdited a none reason w r) := by
    intro r hrow
    exact ⟨by rw [hrow], fun _ => by rw [hrow], fun hnew => absurd rfl hnew⟩
  cases hform : rescheduleForm parseDatetime ((controlPage row).submit none reason) with
  | error e =>
    rw [view_error hofficer hpk hform]
    refine iff_of_true (hquiet _ rfl) ⟨fun hnew => absurd rfl hnew, fun _ hagain => ?_⟩
    rw [unedited_form hparse hreason hagain.1 hagain.2.1] at hform
    cases hform
  | ok form =>
    obtain ⟨hstart, hend⟩ := unedited_form_years hparse hform
    have hsubmitted := unedited_form hparse hreason hstart hend
    rw [view_ok hofficer hpk hsubmitted]
    by_cases hok : Reschedulable row w.db.clock (submittedStart row) (some (wholeMinute row.endTime))
    · obtain ⟨v, w', hrun, hrow⟩ := reschedule_moves (u := u) (cleanReason_ok hreason) hok
      rw [hrun]
      constructor
      · intro h
        have hkept := h.start
        have hlast := h.ending rfl
        simp only [hrow, Auction.withTimes_startTime, Auction.withTimes_endTime, Option.getD_some]
          at hkept hlast
        exact ⟨fun hnew => absurd rfl hnew, fun _ _ => ⟨submittedStart_same.mp hkept, hlast⟩⟩
      · intro h
        obtain ⟨hfirst, hlast⟩ := h.resubmitted rfl ⟨hstart, hend, hok⟩
        refine ⟨?_, fun _ => ?_, fun hnew => absurd rfl hnew⟩
        · rw [hrow]
          exact submittedStart_same.mpr hfirst
        · rw [hrow]
          exact hlast
    · obtain ⟨e, w', hrun, hsame⟩ := reschedule_refuses u text hok
      rw [hrun]
      exact iff_of_true (hquiet _ (by rw [hsame])) ⟨fun hnew => absurd rfl hnew,
        fun _ hagain => absurd hagain.2.2 hok⟩

/-- With a later end, only the start that goes with it can be refused. -/
theorem new_end_accepted {t e : Time} (hopen : row.status = .scheduled ∨ row.status = .paused)
    (hfirst : row.startTime < e) (hnow : t < e) : Reschedulable row t (submittedStart row) (some e) ↔
      (row.status = .scheduled → t < wholeMinute row.startTime) := by
  have hlow := wholeMinute_le row.startTime
  rcases hopen with hopen | hopen
  · have hstart : submittedStart row = some (wholeMinute row.startTime) := by
      rw [submittedStart, if_pos hopen]
    rw [hstart]
    constructor
    · exact fun h _ => not_le.mp fun hpast => h.ahead ⟨hopen, by simp, hpast⟩
    · intro h
      exact ⟨by simp [schedulable, hopen], by simp, by simp [hopen], lt_of_le_of_lt hlow hfirst, hnow,
        fun hpast => absurd hpast.2.2 (not_le.mpr (h hopen)), by simp [hopen]⟩
  · have hstart : submittedStart row = none := by
      rw [submittedStart, if_neg (by simp [hopen])]
    rw [hstart]
    refine iff_of_true ?_ fun h => by simp [hopen] at h
    exact ⟨by simp [schedulable, hopen], by simp, by simp, hfirst, hnow, by simp, by simp [hopen]⟩

/-- A new end alone: it goes through where the start that is shown with it does. -/
theorem new_end_iff (hparse : ReadsAlike parseDatetime)
    (hofficer : (w.db.users u).isOfficerOrAdmin = true) (hpk : a ∈ w.db.auctionPks)
    (hopen : (w.db.dossier a).row.status = .scheduled ∨ (w.db.dossier a).row.status = .paused)
    {text end_ : String} (hreason : cleanReason reason = .ok text)
    (hlater : LaterEnd parseDatetime (w.db.dossier a).row w.db.clock end_) :
    OnlyEdited a (some end_) reason w ((rescheduleView parseDatetime a u
        ((controlPage (w.db.dossier a).row).submit (some end_) reason)).run engine w) ↔
      ShownExactly (w.db.dossier a).row w.db.clock (some end_) := by
  let row := (w.db.dossier a).row
  obtain ⟨e, hread, _, hfirst, hnow⟩ := hlater
  have hgoes := new_end_accepted hopen hfirst hnow
  by_cases hyear : row.status = .scheduled → fourDigitYear row.startTime
  · have hform : rescheduleForm parseDatetime ((controlPage row).submit (some end_) reason) =
        .ok ⟨submittedStart row, some e, text⟩ := form_ok (submit_start hparse hyear) hread hreason
    rw [view_ok hofficer hpk hform]
    by_cases hahead : row.status = .scheduled → w.db.clock < wholeMinute row.startTime
    · obtain ⟨v, w', hrun, hrow⟩ := reschedule_moves (u := u) (cleanReason_ok hreason)
        (hgoes.mpr hahead)
      rw [hrun]
      constructor
      · intro h
        have hkept := h.start
        rw [hrow] at hkept
        refine ⟨fun _ hs => ?_, fun hnone => by cases hnone⟩
        have hsame := submittedStart_same.mp hkept hs
        exact ⟨⟨hyear hs, hsame⟩, lt_of_lt_of_eq (hahead hs) hsame⟩
      · intro h
        refine ⟨?_, (fun hnone => by cases hnone), fun _ _ => ⟨v, rfl⟩⟩
        rw [hrow]
        exact submittedStart_same.mpr fun hs => (h.moved (by simp) hs).1.2
    · obtain ⟨e', w', hrun, _⟩ := reschedule_refuses u text (mt hgoes.mp hahead)
      rw [hrun]
      refine iff_of_false (fun h => ?_) fun h => hahead fun hs => ?_
      · obtain ⟨v, hv⟩ := h.moved (by simp) ⟨text, hreason⟩
        cases hv
      · obtain ⟨⟨_, hsame⟩, hlies⟩ := h.moved (by simp) hs
        exact lt_of_lt_of_eq hlies hsame.symm
  · cases hform : rescheduleForm parseDatetime ((controlPage row).submit (some end_) reason) with
    | ok form => exact absurd (submit_start_year hparse (form_ok_fields hform).1) hyear
    | error e' =>
      rw [view_error hofficer hpk hform]
      refine iff_of_false (fun h => ?_) fun h => hyear fun hs => (h.moved (by simp) hs).1.1
      obtain ⟨v, hv⟩ := h.moved (by simp) ⟨text, hreason⟩
      cases hv

/-- For every scheduled or paused auction and every officer who submits the reschedule form
as the page shows it, or with a later end in the place of the one that is shown: only what
was edited is changed, and the unedited start refuses nothing, exactly when what is shown
is exact where it matters, or the reason is not accepted anyway. -/
theorem form_changes_only_edited_iff (hparse : ReadsAlike parseDatetime) (w : World Database Nat)
    (a : AuctionId) (u : UserId) (hofficer : (w.db.users u).isOfficerOrAdmin = true)
    (hpk : a ∈ w.db.auctionPks)
    (hopen : (w.db.dossier a).row.status = .scheduled ∨ (w.db.dossier a).row.status = .paused)
    (newEnd : Option String) (reason : String)
    (hlater : ∀ end_, newEnd = some end_ →
      LaterEnd parseDatetime (w.db.dossier a).row w.db.clock end_) :
    OnlyEdited a newEnd reason w ((rescheduleView parseDatetime a u
        ((controlPage (w.db.dossier a).row).submit newEnd reason)).run engine w) ↔
      ((∃ text, cleanReason reason = .ok text) →
        ShownExactly (w.db.dossier a).row w.db.clock newEnd) := by
  by_cases hreason : ∃ text, cleanReason reason = .ok text
  · rw [imp_iff_right hreason]
    obtain ⟨text, hreason⟩ := hreason
    cases newEnd with
    | none => exact resubmission_iff hparse hofficer hpk hreason
    | some end_ => exact new_end_iff hparse hofficer hpk hopen hreason (hlater end_ rfl)
  · refine iff_of_true ?_ fun h => absurd h hreason
    cases hform : rescheduleForm parseDatetime
        ((controlPage (w.db.dossier a).row).submit newEnd reason) with
    | ok form => exact absurd ⟨form.reason, (form_ok_fields hform).2.2⟩ hreason
    | error e =>
      rw [view_error hofficer hpk hform]
      exact ⟨rfl, fun _ => rfl, fun _ h => absurd h hreason⟩

end Submission

section Samples
variable {w : World Database Nat}

/-- Two o'clock in the morning of the first day, as Kampala writes it. -/
def fiveOClock : String := "1970-01-01T05:00"

/-- The sample auction is there, and ends before two o'clock. -/
def endsEarly (w : World Database Nat) : Bool :=
  (w.db.users 0).isOfficerOrAdmin && w.db.auctionPks == [0] &&
    (w.db.dossier 0).row.startTime < minutes 120 && (w.db.dossier 0).row.endTime < minutes 120 &&
    w.db.clock < minutes 120

theorem endsEarly_later (h : endsEarly w = true) (end_ : String) (hend : some fiveOClock = some end_) :
    LaterEnd strptime (w.db.dossier 0).row w.db.clock end_ := by
  have hread : cleanDateTime strptime (some fiveOClock) = .ok (some (minutes 120)) := by
    decide +kernel
  simp only [endsEarly, Bool.and_eq_true, decide_eq_true_eq] at h
  obtain ⟨⟨⟨_, hstart⟩, hlast⟩, hclock⟩ := h
  cases hend
  exact ⟨_, hread, hlast, hstart, hclock⟩

theorem endsEarly_page (h : endsEarly w = true) :
    (w.db.users 0).isOfficerOrAdmin = true ∧ 0 ∈ w.db.auctionPks := by
  simp only [endsEarly, Bool.and_eq_true, beq_iff_eq] at h
  obtain ⟨⟨⟨⟨hofficer, hpks⟩, _⟩, _⟩, _⟩ := h
  exact ⟨hofficer, by rw [hpks]; decide⟩

/-- The sample auction is paused and gets a new end: nothing else changes. -/
theorem form_changes_only_edited_sample : ∃ before w, Served sampleDatabase before w ∧
    OnlyEdited 0 (some fiveOClock) "Rain" w ((rescheduleView strptime 0 0
      ((controlPage (w.db.dossier 0).row).submit (some fiveOClock) "Rain")).run engine w) := by
  obtain ⟨before, w, hserved, hq⟩ := served_state sampleDatabase
    (opening ++ [.call (.pause 0 0 "Rain")])
    (fun w => (w.db.dossier 0).row.status == .paused && endsEarly w) (by decide +kernel)
  simp only [Bool.and_eq_true, beq_iff_eq] at hq
  obtain ⟨hpaused, hearly⟩ := hq
  obtain ⟨hofficer, hpk⟩ := endsEarly_page hearly
  refine ⟨before, w, hserved, ?_⟩
  apply (form_changes_only_edited_iff (fun _ => .inr rfl) w 0 0 hofficer hpk (.inr hpaused)
    (some fiveOClock) "Rain" (endsEarly_later hearly)).mpr
  intro _
  constructor
  · intro _ hscheduled
    rw [hpaused] at hscheduled
    cases hscheduled
  · intro hnone
    cases hnone

/-- The start of a scheduled auction is over, and an officer moves only its end: the
request is refused because of the start that the page filled in. -/
theorem overdue_start_refused : ¬ ∀ (db : Database)
    (before : List (World Database Nat × Request Call Outside)) (w : World Database Nat)
    (a : AuctionId) (u : UserId) (newEnd : Option String) (reason : String), Served db before w →
    (w.db.users u).isOfficerOrAdmin = true → a ∈ w.db.auctionPks →
    ((w.db.dossier a).row.status = .scheduled ∨ (w.db.dossier a).row.status = .paused) →
    (∀ end_, newEnd = some end_ →
      LaterEnd strptime (w.db.dossier a).row w.db.clock end_) →
    OnlyEdited a newEnd reason w ((rescheduleView strptime a u
      ((controlPage (w.db.dossier a).row).submit newEnd reason)).run engine w) := by
  intro hall
  obtain ⟨before, w, hserved, hq⟩ := served_state sampleDatabase
    [.call (.submitForReview 0 1), .call (.approve 0 0 "")]
    (fun w => (w.db.dossier 0).row.status == .scheduled && endsEarly w &&
      ((rescheduleView strptime 0 0 ((controlPage (w.db.dossier 0).row).submit
        (some fiveOClock) "Rain")).run engine w).1.toOption.isNone)
    (by decide +kernel)
  simp only [Bool.and_eq_true, beq_iff_eq] at hq
  obtain ⟨⟨hscheduled, hearly⟩, hrefused⟩ := hq
  obtain ⟨hofficer, hpk⟩ := endsEarly_page hearly
  have honly := hall sampleDatabase before w 0 0 (some fiveOClock) "Rain" hserved hofficer hpk
    (.inl hscheduled) (endsEarly_later hearly)
  obtain ⟨v, hv⟩ := honly.moved (by simp) ⟨"Rain", by decide +kernel⟩
  rw [hv] at hrefused
  cases hrefused

end Samples

end MbararaAuction
