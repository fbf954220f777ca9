import MbararaAuction.Model.ControlRoom
import MbararaAuction.Proofs.Rescheduling
import MbararaAuction.Proofs.ServerErrors
import MbararaAuction.Proofs.Windows

namespace MbararaAuction
open Transactions

seal Tx.Exec

section Services
variable {sees : Database → Database → Prop} {s s' : Database} {a : AuctionId}
variable {actor : UserId} {reason : String} {row : Auction} {e : PyError}

theorem needReason_ok (h : strip reason ≠ "") : needReason reason = .ok (strip reason) := by
  rw [needReason, if_neg h]

theorem needReason_given {text : String} (h : needReason reason = .ok text) :
    strip reason ≠ "" := by
  intro hblank
  rw [needReason, if_pos hblank] at h
  cases h

/-- Only a scheduled auction that is not over yet is started by hand, and nothing else
stands against it. -/
theorem startNow_error (h : (startNow a actor).Exec Exact s (.error e) s') :
    ¬ ((s.dossier a).row.status = .scheduled ∧ s.clock < (s.dossier a).row.endTime) := by
  intro hgood
  obtain ⟨hstatus, hend⟩ := hgood
  simp only [startNow, exec_lockedAuction_bind, exec_refuse_bind, exec_now_bind, exists_exact,
    hstatus, ne_eq, not_true_eq_false, false_and, not_false_eq_true, true_and, not_le.mpr hend,
    false_or] at h
  rcases (exec_bind_error ..).mp h with hstart | ⟨_, t, hstart, htrans⟩
  · rcases (exec_when ..).mp hstart with ⟨_, hsave⟩ | ⟨_, hend, _⟩
    · rw [exec_saveAuction_bind] at hsave
      exact absurd hsave (quiet_record ..).no_error
    · cases hend
  have hscheduled : (t.dossier a).row.status = .scheduled := by
    rcases (exec_when ..).mp hstart with ⟨_, hsave⟩ | ⟨_, _, hsame⟩
    · rw [exec_saveAuction_bind] at hsave
      rw [congrFun ((quiet_record ..).exec hsave).2.dossier a, amend_self]
      exact hstatus
    · rw [hsame]
      exact hstatus
  rcases transition_error htrans with hnot | ⟨hrejected, _⟩
  · exact hnot (by rw [hscheduled]; simp [allowedTransitions])
  · cases hrejected

theorem pause_ok (h : (pause a actor reason).Exec sees s (.ok row) s') :
    strip reason ≠ "" ∧ (s.dossier a).row.status = .live := by
  simp only [pause, exec_ofExcept_bind, exec_lockedAuction_bind, reduceCtorEq, false_and, and_false,
    exists_false, false_or] at h
  obtain ⟨text, hreason, h⟩ := h
  obtain ⟨_, t, htrans, _⟩ := (exec_bind_ok ..).mp h
  refine ⟨needReason_given hreason, ?_⟩
  have hallowed := (transition_ok htrans).1
  generalize (s.dossier a).row.status = status at hallowed
  cases status <;> simp_all [allowedTransitions]

theorem pause_error (hreason : strip reason ≠ "")
    (h : (pause a actor reason).Exec sees s (.error e) s') : (s.dossier a).row.status ≠ .live := by
  intro hlive
  simp only [pause, exec_ofExcept_bind, needReason_ok hreason, exec_lockedAuction_bind,
    reduceCtorEq, false_and, exists_false, false_or, Except.ok.injEq, exists_eq_left'] at h
  rcases (exec_bind_error ..).mp h with htrans | ⟨_, t, _, h⟩
  · rcases transition_error htrans with hnot | ⟨hrejected, _⟩
    · exact hnot (by rw [hlive]; simp [allowedTransitions])
    · cases hrejected
  · obtain ⟨_, _, _, h⟩ := (quiet_record ..).skip h
    exact absurd (exec_then_pure_error h) (quiet_notifyAuctionUpdate ..).no_error

theorem cancellable_of_schedulable {status : Status} (h : schedulable status = true) :
    .cancelled ∈ allowedTransitions status := by
  cases status <;> simp_all [schedulable, allowedTransitions]

theorem cancelAuction_ok (h : (cancelAuction a actor reason).Exec sees s (.ok row) s') :
    strip reason ≠ "" ∧ schedulable (s.dossier a).row.status = true := by
  simp only [cancelAuction, exec_ofExcept_bind, exec_lockedAuction_bind, exec_refuse_bind,
    reduceCtorEq, false_and, and_false, exists_false, false_or] at h
  obtain ⟨text, hreason, hopen, _⟩ := h
  exact ⟨needReason_given hreason, Bool.eq_true_of_not_eq_false hopen⟩

/-- With a reason, only the status refuses a cancellation. -/
theorem cancelAuction_error (hreason : strip reason ≠ "")
    (h : (cancelAuction a actor reason).Exec sees s (.error e) s') :
    schedulable (s.dossier a).row.status = false := by
  by_contra hopen
  rw [Bool.not_eq_false] at hopen
  simp only [cancelAuction, exec_ofExcept_bind, needReason_ok hreason, exec_lockedAuction_bind,
    exec_refuse_bind, hopen, reduceCtorEq, Bool.true_eq_false, false_and, exists_false, false_or,
    not_false_eq_true, true_and, Except.ok.injEq, exists_eq_left'] at h
  rcases (exec_bind_error ..).mp h with hcancel | ⟨_, t, _, h⟩
  · rcases transition_error hcancel with hnot | ⟨hrejected, _⟩
    · exact hnot (cancellable_of_schedulable hopen)
    · cases hrejected
  · exact absurd (exec_then_pure_error h) (quiet_notifyAuctionUpdate ..).no_error

theorem endNow_ok (h : (endNow a actor reason).Exec sees s (.ok row) s') :
    strip reason ≠ "" ∧ (s.dossier a).row.status = .live := by
  simp only [endNow, exec_ofExcept_bind, exec_lockedAuction_bind, exec_refuse_bind, reduceCtorEq,
    false_and, and_false, exists_false, false_or] at h
  obtain ⟨text, hreason, hlive, _⟩ := h
  exact ⟨needReason_given hreason, not_not.mp hlive⟩

theorem endNow_error (hreason : strip reason ≠ "")
    (h : (endNow a actor reason).Exec sees s (.error e) s') : (s.dossier a).row.status ≠ .live := by
  intro hlive
  simp only [endNow, exec_ofExcept_bind, needReason_ok hreason, exec_lockedAuction_bind,
    exec_refuse_bind, hlive, ne_eq, not_true_eq_false, reduceCtorEq, false_and, exists_false,
    false_or, not_false_eq_true, true_and, Except.ok.injEq, exists_eq_left'] at h
  exact closeAuction_error h hlive

end Services

section Actions
variable {parseDatetime : String → Option Time}

/-- What the forms of the page ask for, besides being there. -/
def ControlAction.Filled (parseDatetime : String → Option Time) (row : Auction) (t : Time) :
    ControlAction → Prop
  | start | resume => t < row.endTime
  | pause reason | endNow reason | cancel reason => strip reason ≠ ""
  | reschedule post => ∃ form, rescheduleForm parseDatetime post = .ok form ∧
      Reschedulable row t form.startTime form.endTime

/-- The status in which the form leaves the auction. -/
def ControlAction.leadsTo (status : Status) : ControlAction → Status
  | start | resume => .live
  | pause _ => .paused
  | endNow _ => .closed
  | cancel _ => .cancelled
  | reschedule _ => status

/-- Alone on these rows, the transaction is done exactly where `good` holds, with the
result `Q`, and what it raises otherwise the control page shows. -/
structure Exactly (s : Database) (l : ServiceTx) (good : Prop) (Q : Database → Prop) : Prop where
  only : ∀ r s', (engine.prog l).Exec Exact s (.ok r) s' → good ∧ Q s'
  done : good → ∀ e s', ¬ (engine.prog l).Exec Exact s (.error e) s'
  shown : ∀ e s', (engine.prog l).Exec Exact s (.error e) s' → OnControl e

section Outcomes
variable {s : Database} {a : AuctionId} {u : UserId} {reason : String} {status : Status}

/-- The auction is then in this status. -/
def Enters (a : AuctionId) (status : Status) (s' : Database) : Prop :=
  (s'.dossier a).row.status = status

theorem Move.enters {view : View} {d d' : Dossier} (hm : Move view (.enter status) d d') :
    d'.row.status = status := by
  cases hm with
  | enter | activate | resume | start => rfl

theorem moved_enters {view : View} {s' : Database} (h : Moved view (.enter status) a s s') :
    Enters a status s' := by
  obtain ⟨d, hm, hb⟩ := h
  rw [Enters, hb.here]
  exact hm.enters

theorem startNow_exactly : Exactly s (.startNow a u)
    ((s.dossier a).row.status = .scheduled ∧ s.clock < (s.dossier a).row.endTime)
    (Enters a .live) where
  only r s' hx := by
    obtain ⟨_, hdone⟩ := exec_map_ok hx
    obtain ⟨_, rfl, hstatus, hend, hb⟩ := startNow_ok hdone
    refine ⟨⟨hstatus, hend⟩, ?_⟩
    rw [Enters, hb.here]
    rfl
  done hgood e s' hx := startNow_error (exec_then_pure_error hx) hgood
  shown e s' hx := startNow_admits.throws.exec (exec_then_pure_error hx)

theorem pause_exactly : Exactly s (.pause a u reason)
    (strip reason ≠ "" ∧ (s.dossier a).row.status = .live) (Enters a .paused) where
  only r s' hx := by
    obtain ⟨_, hdone⟩ := exec_map_ok hx
    have hm : Moved .any (.enter .paused) a s s' := pause_moved hdone
    exact ⟨pause_ok hdone, moved_enters hm⟩
  done hgood e s' hx := pause_error hgood.1 (exec_then_pure_error hx) hgood.2
  shown e s' hx := pause_admits.throws.exec (exec_then_pure_error hx)

theorem resume_exactly : Exactly s (.resume a u)
    ((s.dossier a).row.status = .paused ∧ s.clock < (s.dossier a).row.endTime)
    (Enters a .live) where
  only r s' hx := by
    obtain ⟨_, hdone⟩ := exec_map_ok hx
    obtain ⟨_, rfl, hpaused, hend, hb⟩ := resume_ok hdone
    refine ⟨⟨hpaused, hend⟩, ?_⟩
    rw [Enters, hb.here]
    rfl
  done hgood e s' hx := by
    rcases resume_error hx with hnot | hover
    · exact hnot hgood.1
    · exact absurd hgood.2 (not_lt.mpr hover)
  shown e s' hx := resume_admits.throws.exec (exec_then_pure_error hx)

theorem cancelAuction_exactly : Exactly s (.cancelAuction a u reason)
    (strip reason ≠ "" ∧ schedulable (s.dossier a).row.status = true) (Enters a .cancelled) where
  only r s' hx := by
    obtain ⟨_, hdone⟩ := exec_map_ok hx
    have hm : Moved .any (.enter .cancelled) a s s' := cancelAuction_moved hdone
    exact ⟨cancelAuction_ok hdone, moved_enters hm⟩
  done hgood e s' hx := by
    have hclosed := cancelAuction_error hgood.1 (exec_then_pure_error hx)
    rw [hgood.2] at hclosed
    cases hclosed
  shown e s' hx := cancelAuction_admits.throws.exec (exec_then_pure_error hx)

theorem endNow_exactly : Exactly s (.endNow a u reason)
    (strip reason ≠ "" ∧ (s.dossier a).row.status = .live) (Enters a .closed) where
  only r s' hx := by
    obtain ⟨_, hdone⟩ := exec_map_ok hx
    obtain ⟨d, hm, hb⟩ : Moved .any .close a s s' := endNow_moved hdone
    refine ⟨endNow_ok hdone, ?_⟩
    rw [Enters, hb.here]
    exact (decided_of_close hm).closed
  done hgood e s' hx := endNow_error hgood.1 (exec_then_pure_error hx) hgood.2
  shown e s' hx := endNow_throws.exec (exec_then_pure_error hx)

theorem reschedule_exactly {startTime endTime : Option Time} (hreason : strip reason ≠ "") :
    Exactly s (.reschedule a u reason startTime endTime)
      (Reschedulable (s.dossier a).row s.clock startTime endTime)
      (Enters a (s.dossier a).row.status) where
  only r s' hx := by
    obtain ⟨_, hdone⟩ := exec_map_ok hx
    obtain ⟨_, _, hwrites⟩ := reschedule_writes hdone
    refine ⟨reschedule_ok hdone, ?_⟩
    rw [Enters, hwrites.became.here]
    rfl
  done hgood e s' hx := reschedule_error hreason (exec_then_pure_error hx) hgood
  shown e s' hx := reschedule_admits.throws.exec (exec_then_pure_error hx)

end Outcomes

section Pages
variable {w : World Database Nat} {u : UserId} {a : AuctionId} {good : Prop} {Q : Database → Prop}

/-- An active user who may see the pages for staff. -/
structure StaffMember (s : Database) (u : UserId) : Prop where
  user : u ∈ s.userPks ∧ (s.users u).isActive = true
  staff : (s.users u).isOfficerOrAdmin = true

theorem staffOnly_eq {α : Type} {s : Database} (h : StaffMember s u) (page : Except PageError α) :
    staffOnly s (some u) page = page := by
  simp only [staffOnly, requestUser_eq h.user, h.staff, ↓reduceIte]

/-- Back on the page of the auction, with one message. -/
def controlAnswer (a : AuctionId) (level : MessageLevel) (text : String) : Answer :=
  .redirect (.control a) [⟨level, text⟩]

/-- Where `good` holds the action is taken, with the result `Q`, and otherwise it is refused
and changes nothing. -/
structure Answers (w : World Database Nat) (a : AuctionId) (good : Prop) (success : String)
    (Q : Database → Prop) (out : Except PyError Answer × World Database Nat) : Prop where
  taken : good → out.1 = .ok (controlAnswer a .success success) ∧ Q out.2.db
  refused : ¬ good → (∃ text, out.1 = .ok (controlAnswer a .error text)) ∧ out.2.db = w.db

theorem actionView_runs {success : String} (run : UserId → Except PyError Call) {call : Call}
    {l : ServiceTx} (hstaff : StaffMember w.db u) (ha : a ∈ w.db.auctionPks)
    (hrun : run u = .ok call) (hbody : engine.body call = l.alone) (h : Exactly w.db l good Q) :
    Answers w a good success Q ((actionView (some u) a success run).run engine w) := by
  have huser := requestUser_eq hstaff.user
  constructor
  · intro hgood
    obtain ⟨r, w', hatomic, hx⟩ := atomic_ok (h.done hgood)
    have hview : (actionView (some u) a success run).run engine w =
        (.ok (controlAnswer a .success success), w') := by
      simp only [actionView, staffOrOfficerRequired, testRequired, Script.run, huser, hstaff.staff,
        getAuction, if_pos ha, hrun, tryCall, hbody, alone_run, hatomic, ↓reduceIte]
      rfl
    rw [hview]
    exact ⟨rfl, (h.only r _ hx).2⟩
  · intro hnot
    rcases atomic_cases (engine.prog l) w with ⟨r, w', _, hx⟩ | ⟨e, w', s, hatomic, hsame, hx⟩
    · exact absurd (h.only r _ hx).1 hnot
    obtain ⟨text, htext⟩ := Option.isSome_iff_exists.mp (h.shown e s hx)
    have hview : (actionView (some u) a success run).run engine w =
        (.ok (controlAnswer a .error text), w') := by
      simp only [actionView, staffOrOfficerRequired, testRequired, Script.run, huser, hstaff.staff,
        getAuction, if_pos ha, hrun, tryCall, hbody, alone_run, hatomic, proceed, htext, ↓reduceIte]
      rfl
    rw [hview]
    exact ⟨⟨text, rfl⟩, hsame⟩

/-- A form that is not valid is refused before any call. -/
theorem actionView_invalid {success text : String} {run : UserId → Except PyError Call}
    {e : PyError} (hstaff : StaffMember w.db u) (ha : a ∈ w.db.auctionPks) (hrun : run u = .error e)
    (htext : actionText e = some text) (hgood : ¬ good) :
    Answers w a good success Q ((actionView (some u) a success run).run engine w) := by
  have huser := requestUser_eq hstaff.user
  refine ⟨fun h => absurd h hgood, fun _ => ?_⟩
  have hview : (actionView (some u) a success run).run engine w =
      (.ok (controlAnswer a .error text), w) := by
    simp only [actionView, staffOrOfficerRequired, testRequired, Script.run, huser, hstaff.staff,
      getAuction, if_pos ha, hrun, htext, ↓reduceIte]
    rfl
  rw [hview]
  exact ⟨⟨text, rfl⟩, rfl⟩

theorem Answers.congr {good' : Prop} {success : String}
    {out : Except PyError Answer × World Database Nat} (h : Answers w a good success Q out)
    (hsame : good' ↔ good) : Answers w a good' success Q out :=
  ⟨fun hgood => h.taken (hsame.mp hgood), fun hnot => h.refused fun hgood => hnot (hsame.mpr hgood)⟩

/-- The form is on the page, and it is filled in as it must be. -/
def ControlAction.Offered (parseDatetime : String → Option Time) (s : Database) (a : AuctionId)
    (act : ControlAction) : Prop :=
  act.shown (auctionControl s a) = true ∧ act.Filled parseDatetime (s.dossier a).row s.clock

theorem reschedule_answers (hstaff : StaffMember w.db u) (ha : a ∈ w.db.auctionPks)
    (post : ReschedulePost) :
    Answers w a ((ControlAction.reschedule post).Offered parseDatetime w.db a)
      (ControlAction.reschedule post).success (Enters a (w.db.dossier a).row.status)
      ((reschedulePostView (some u) a parseDatetime post).run engine w) := by
  cases hform : rescheduleForm parseDatetime post with
  | error e =>
    obtain ⟨text, htext⟩ : ∃ text, actionText e = some text := by
      unfold rescheduleForm at hform
      split at hform
      · cases hform
      · cases hform
        exact ⟨_, rfl⟩
    refine actionView_invalid hstaff ha (e := e) (by rw [hform]; rfl) htext ?_
    intro h
    obtain ⟨_, form, hok, _⟩ := h
    rw [hform] at hok
    cases hok
  | ok form =>
    obtain ⟨_, _, hreason⟩ := form_ok_fields hform
    refine (actionView_runs _ hstaff ha (by rw [hform]; rfl) rfl
      (reschedule_exactly (cleanReason_ok hreason))).congr ?_
    constructor
    · intro h
      obtain ⟨_, form', hok, hgood⟩ := h
      rw [hform] at hok
      cases hok
      exact hgood
    · exact fun hgood => ⟨hgood.movable, form, hform, hgood⟩

variable (parseDatetime) in
/-- Each form of the page is offered exactly where the service does what it says. -/
theorem action_answers (hstaff : StaffMember w.db u) (ha : a ∈ w.db.auctionPks)
    (act : ControlAction) :
    Answers w a (act.Offered parseDatetime w.db a) act.success
      (Enters a (act.leadsTo (w.db.dossier a).row.status))
      (((act.post a).view parseDatetime (some u)).run engine w) := by
  cases act with
  | start =>
    refine (actionView_runs (fun u => .ok (.startNow a u)) hstaff ha rfl rfl
      startNow_exactly).congr ?_
    simp only [ControlAction.Offered, ControlAction.shown, ControlAction.Filled, auctionControl,
      beq_iff_eq]
  | pause reason =>
    refine (actionView_runs (fun u => .ok (.pause a u reason)) hstaff ha rfl rfl
      pause_exactly).congr ?_
    simp only [ControlAction.Offered, ControlAction.shown, ControlAction.Filled, auctionControl,
      beq_iff_eq]
    exact and_comm
  | resume =>
    refine (actionView_runs (fun u => .ok (.resume a u)) hstaff ha rfl rfl resume_exactly).congr ?_
    simp only [ControlAction.Offered, ControlAction.shown, ControlAction.Filled, auctionControl,
      beq_iff_eq]
  | endNow reason =>
    refine (actionView_runs (fun u => .ok (.endNow a u reason)) hstaff ha rfl rfl
      endNow_exactly).congr ?_
    simp only [ControlAction.Offered, ControlAction.shown, ControlAction.Filled, auctionControl,
      beq_iff_eq]
    exact and_comm
  | cancel reason =>
    refine (actionView_runs (fun u => .ok (.cancelAuction a u reason)) hstaff ha rfl rfl
      cancelAuction_exactly).congr ?_
    exact and_comm
  | reschedule post => exact reschedule_answers hstaff ha post

/-- What a request of `u` that is served alone is answered with, and the world after it. -/
def posted (parseDatetime : String → Option Time) (w : World Database Nat) (u : UserId)
    (request : Post) : Except PyError (Value ⊕ Answer) × World Database Nat :=
  ((website parseDatetime).body (.post (some u) request)).run (website parseDatetime) w

theorem posted_run (request : Post) : posted parseDatetime w u request =
    (((request.view parseDatetime (some u)).run engine w).1.map Sum.inr,
      ((request.view parseDatetime (some u)).run engine w).2) := Script.run_task ..

end Pages

end Actions

end MbararaAuction
