import MbararaAuction.Proofs.Amounts
import MbararaAuction.Proofs.Announcements
import MbararaAuction.Proofs.Closing
import MbararaAuction.Proofs.Disputes
import MbararaAuction.Proofs.Permissions
import MbararaAuction.Proofs.Progress

namespace MbararaAuction
open Transactions Locking

seal Tx.Exec

/-- The exceptions that may leave a transaction, other than those of the database itself. -/
def ServiceTx.Raises (l : ServiceTx) (e : PyError) : Prop :=
  match l with
  | submitForReview _ _ | approve _ _ _ | autoSchedule _ _ | reject _ _ _ | activate _ _ =>
    (invalidTransitionText e).isSome
  | startNow _ _ | reschedule _ _ _ _ _ | pause _ _ _ | resume _ _ | cancelAuction _ _ _
  | endNow _ _ _ => (actionText e).isSome
  | placeBid _ _ _ => (bidRejectedText e).isSome
  | closeAuction _ _ | takeForReview _ _ _ | resolveDispute _ _ _ _ _ _ => (valueErrorText e).isSome
  | openDispute _ _ _ _ => (valueErrorText e).isSome ∨ ∃ message, e = .permissionError message
  | markPaid _ _ method reference _ => (valueErrorText e).isSome ∨ (invalidTransitionText e).isSome ∨
      (50 < method.length ∨ 100 < reference.length) ∧ e = .dataError
  | invalidateBid _ _ _ _ | savePaymentFailed _ _ _ | recordPaymentFailed _ _ _ _
  | createNotification _ _ | deliver _ | saveVerification _ _ _ | saveAccountStatus _ _ _
  | recordProfile _ _ _ _ => False

section Services
variable {Q : PyError → Prop} {s t : Database} {sees : Database → Database → Prop}
variable {a : AuctionId} {pk : Nat} {actor : UserId} {who : Option UserId} {reason : String}
variable {e : PyError}

theorem transition_admits {toStatus : Status} (hQ : ∀ message, Q (.invalidTransition message)) :
    (transition a toStatus who reason).Admits Q :=
  transition_says hQ fun _ => admits_notifyTransition

/-- What the views of the control page handle. -/
abbrev OnControl (e : PyError) : Prop := (actionText e).isSome

theorem moves_admits {toStatus : Status} : (transition a toStatus who reason).Admits OnControl :=
  transition_admits fun _ => rfl

theorem scheduling_admits (c : Prop) [Decidable c] (message : String) :
    (Tx.refuse c (.schedulingError message) : Prog Unit).Admits OnControl :=
  says_refuse c fun _ => rfl

theorem needReason_admits : (Tx.ofExcept (needReason reason) : Prog String).Admits OnControl := by
  refine says_ofExcept fun e he => ?_
  unfold needReason at he
  split at he <;> cases he
  rfl

theorem startNow_admits : (startNow a actor).Admits OnControl := by
  refine says_lockedAuction.bind fun _ => (scheduling_admits _ _).bind fun _ => ?_
  refine (says_glance _).bind fun _ => (scheduling_admits _ _).bind fun _ => ?_
  refine (says_when _ ?_).bind fun _ => moves_admits
  exact (says_saveAuction _).bind fun _ => says_record

theorem reschedule_admits {startTime endTime : Option Time} :
    (reschedule a actor reason startTime endTime).Admits OnControl := by
  refine needReason_admits.bind fun _ => says_lockedAuction.bind fun _ =>
    (says_glance _).bind fun _ => ?_
  refine (scheduling_admits _ _).bind fun _ => (scheduling_admits _ _).bind fun _ => ?_
  refine (scheduling_admits _ _).bind fun _ => (scheduling_admits _ _).bind fun _ => ?_
  refine (scheduling_admits _ _).bind fun _ => (scheduling_admits _ _).bind fun _ => ?_
  refine (scheduling_admits _ _).bind fun _ => (says_saveAuction _).bind fun _ => ?_
  exact says_record.bind fun _ => admits_notifyAuctionUpdate.bind fun _ => says_pure _

theorem pause_admits : (pause a actor reason).Admits OnControl := by
  refine needReason_admits.bind fun _ => says_lockedAuction.bind fun _ =>
    moves_admits.bind fun _ => ?_
  exact says_record.bind fun _ => admits_notifyAuctionUpdate.bind fun _ => says_pure _

theorem resume_admits : (resume a actor).Admits OnControl := by
  refine says_lockedAuction.bind fun _ => (scheduling_admits _ _).bind fun _ => ?_
  refine (says_glance _).bind fun _ => (scheduling_admits _ _).bind fun _ =>
    moves_admits.bind fun _ => ?_
  exact says_record.bind fun _ => admits_notifyAuctionUpdate.bind fun _ => says_pure _

theorem cancelAuction_admits : (cancelAuction a actor reason).Admits OnControl := by
  refine needReason_admits.bind fun _ => says_lockedAuction.bind fun _ => ?_
  refine (scheduling_admits _ _).bind fun _ => moves_admits.bind fun _ => ?_
  exact admits_notifyAuctionUpdate.bind fun _ => says_pure _

/-- A live auction can be closed, so that nothing but its status stands against it. -/
theorem closeAuction_throws :
    (closeAuction a who reason).Throws fun e => (valueErrorText e).isSome := by
  refine ⟨fun {sees s e t} h => ?_⟩
  have hstatus := closeAuction_error h
  simp only [closeAuction, exec_lockedAuction_bind, exec_refuse_bind] at h
  rcases h with ⟨_, he, _⟩ | ⟨hlive, _⟩
  · cases he
    rfl
  · exact absurd hstatus hlive

theorem endNow_throws : (endNow a actor reason).Throws OnControl := by
  refine needReason_admits.throws.bind fun _ => ?_
  refine (Tx.Admits.throws says_lockedAuction).bind fun _ => ?_
  refine (scheduling_admits _ _).throws.bind fun _ => closeAuction_throws.mono fun e he => ?_
  cases e <;> first | rfl | cases he

theorem invalidateBid_admits : (invalidateBid a pk actor reason).Admits Q := by
  refine says_lockedAuction.bind fun _ => (says_glance _).bind fun _ =>
    (says_saveBid _).bind fun _ => ?_
  exact (says_query _).bind fun _ => (says_saveAuction _).bind fun _ => says_record

theorem markPaid_admits {payment : LoadedPayment} {method reference notes : String}
    (hvalue : ∀ message, Q (.valueError message))
    (hdata : 50 < method.length ∨ 100 < reference.length → Q .dataError)
    (hmove : ∀ message, Q (.invalidTransition message)) :
    (markPaid payment actor method reference notes).Admits Q := by
  refine (says_refuse _ fun _ => hvalue _).bind fun _ => (says_glance _).bind fun _ => ?_
  refine (says_refuse _ hdata).bind fun _ => (says_savePayment _).bind fun _ => ?_
  refine says_record.bind fun _ => says_getAuction.bind fun auction => ?_
  refine (says_when _ ?_).bind fun _ => admits_notifyPaymentReceived.bind fun _ => says_pure _
  exact (transition_admits hmove).bind fun _ => says_pure _

theorem disputed_allowed {status : Status} (h : disputable status = true) :
    Status.disputed ∈ allowedTransitions status := by
  cases status <;> first | decide | cases h

theorem openDispute_throws {category description : String}
    (hvalue : ∀ message, Q (.valueError message)) (hparty : ∀ message, Q (.permissionError message))
    (hkey : Q (.integrityError "pkey")) : (openDispute a actor category description).Throws Q := by
  refine ⟨fun {sees s e t} h => ?_⟩
  simp only [openDispute, createDispute, exec_refuse_bind, exec_require_bind, exec_lockedAuction_bind,
    exec_query_bind, activeDisputeExists, exec_glance_bind] at h
  rcases h with ⟨_, he, _⟩ | ⟨_, ⟨_, he, _⟩ | ⟨_, _, ⟨_, he, _⟩ | ⟨hopen, ⟨_, he, _⟩ | ⟨_, h⟩⟩⟩⟩
  · cases he
    exact hvalue _
  · cases he
    exact hvalue _
  · cases he
    exact hvalue _
  · cases he
    exact hparty _
  obtain ⟨_, _, ⟨_, he, _⟩ | ⟨_, h⟩⟩ := h
  · cases he
    exact hvalue _
  rcases (exec_bind_error ..).mp h with hcreate | ⟨dispute, u, hcreate, h⟩
  · simp only [exec_nextPk_bind, exec_glance_bind, exec_refuse_bind, exec_insertDispute_bind,
      exec_pure, reduceCtorEq, false_and, and_false, or_false] at hcreate
    obtain ⟨n, ⟨_, he, _⟩ | ⟨_, _, _, _, he, _⟩⟩ := hcreate
    · cases he
      exact hkey
    · cases he
      exact hvalue _
  -- A closed or settled auction may become disputed.
  have hrow : (u.dossier a).row = (s.dossier a).row := by
    simp only [exec_nextPk_bind, exec_glance_bind, exec_refuse_bind, exec_insertDispute_bind,
      exec_pure, reduceCtorEq, false_and, and_false, false_or] at hcreate
    obtain ⟨_, _, _, _, _, _, rfl⟩ := hcreate
    rw [amend_self]
    rfl
  rcases (exec_bind_error ..).mp h with hmove | ⟨_, _, _, h⟩
  · rcases transition_error hmove with hnot | ⟨hrejected, _⟩
    · rw [hrow] at hnot
      exact absurd (disputed_allowed (Bool.eq_true_of_not_eq_false hopen)) hnot
    · cases hrejected
  obtain ⟨_, _, _, h⟩ := (quiet_record ..).skip h
  obtain ⟨_, _, h⟩ := (exec_glance_bind ..).mp h
  exact absurd (exec_then_pure_error h) (quiet_forEach _ fun _ => quiet_notify _).no_error

/-- On a sound book nothing but a rejection stands against a bid. -/
theorem placeBid_raises {amount : Number} (hbook : BidBook (s.dossier a))
    (h : (placeBid a actor amount).Exec sees s (.error e) t) :
    (bidRejectedText e).isSome ∨ e = .integrityError "pkey" := by
  simp only [placeBid, exec_ofExcept_bind, exec_lockedAuction_bind, exec_now_bind,
    exec_refuse_bind, exec_glance_bind, exec_query_bind] at h
  rcases h with ⟨_, hinvalid, he, _⟩ | ⟨value, _, _, _, ⟨_, he, _⟩ | ⟨_, _, _, _, _, h⟩⟩
  · obtain ⟨_, _, rfl⟩ := validateAmount_error hinvalid 0
    cases he
    exact .inl rfl
  · cases he
    exact .inl rfl
  rcases h with ⟨_, he, _⟩ | ⟨_, ⟨_, he, _⟩ | ⟨_, ⟨_, he, _⟩ | ⟨_, ⟨_, he, _⟩ | ⟨henough, h⟩⟩⟩⟩
  · cases he
    exact .inl rfl
  · cases he
    exact .inl rfl
  · cases he
    exact .inl rfl
  · cases he
    exact .inl rfl
  rcases (exec_bind_error ..).mp h with hcreate | ⟨bid, _, _, h⟩
  · simp only [createBid, exec_nextPk_bind, exec_now_bind, exec_query_bind, exec_refuse_bind,
      exec_update_bind, exec_pure, reduceCtorEq, false_and, and_false, or_false] at hcreate
    obtain ⟨n, ⟨_, he, _⟩ | ⟨_, _, _, ⟨htaken, _⟩ | ⟨_, hlow, _⟩⟩⟩ := hcreate
    · cases he
      exact .inr rfl
    · rw [nextSequence_eq hbook.numbered, hbook.numbered, List.mem_range'_1] at htaken
      omega
    · have hstart := hbook.terms.starting
      have hfloor := starting_le_minimum hbook
      lia
  obtain ⟨_, _, _, h⟩ := (quiet_when _ (quiet_record ..)).skip h
  rw [exec_saveAuction_bind] at h
  obtain ⟨_, _, _, h⟩ := (quiet_record ..).skip h
  exact absurd (exec_then_pure_error h) (quiet_notifyOutbid ..).no_error

/-- A dispute that exists can be resolved, or a `ValueError` says why not. -/
theorem resolveDispute_raises {outcome notes : String} {refund : Bool}
    (hbook : DisputeBook (s.dossier a)) (hfound : ∃ d ∈ (s.dossier a).disputes, d.pk = pk)
    (h : (resolveDispute a pk actor outcome notes refund).Exec sees s (.error e) t) :
    (valueErrorText e).isSome := by
  cases resolveDispute_error hbook h with
  | missing absent =>
    obtain ⟨d, hd, hpk⟩ := hfound
    have hnone := List.find?_eq_none.mp absent d hd
    exact absurd hpk (by simpa using hnone)
  | _ => rfl

theorem takeForReview_raises (hfound : ∃ d ∈ (s.dossier a).disputes, d.pk = pk)
    (h : (takeForReview a pk actor).Exec sees s (.error e) t) : (valueErrorText e).isSome := by
  simp only [takeForReview, exec_lockedDispute_bind, exec_refuse_bind, exec_saveDispute_bind,
    exec_pure, reduceCtorEq, false_and, and_false, or_false] at h
  rcases h with ⟨hnone, _⟩ | ⟨_, _, _, he, _⟩
  · obtain ⟨d, hd, hpk⟩ := hfound
    have hother := List.find?_eq_none.mp hnone d hd
    exact absurd hpk (by simpa using hother)
  · cases he
    rfl

/-- The dispute that a transaction is about exists. -/
def ServiceTx.Located (s : Database) : ServiceTx → Prop
  | takeForReview a pk _ | resolveDispute a pk _ _ _ _ => ∃ d ∈ (s.dossier a).disputes, d.pk = pk
  | _ => True

/-- No transaction raises anything but what is said of it, as long as new rows get new keys. -/
theorem service_raises {l : ServiceTx} (hbids : ∀ a, BidBook (s.dossier a))
    (hdisputes : ∀ a, DisputeBook (s.dossier a)) (hfound : l.Located s) (hkeys : DistinctKeys e)
    (h : l.prog.Exec sees s (.error e) t) : l.Raises e := by
  cases l with
  | submitForReview | approve | autoSchedule | reject | activate =>
    exact ((transition_admits fun _ => rfl).throws.map _).exec h
  | startNow => exact (startNow_admits.throws.map _).exec h
  | reschedule => exact (reschedule_admits.throws.map _).exec h
  | pause => exact (pause_admits.throws.map _).exec h
  | resume => exact (resume_admits.throws.map _).exec h
  | cancelAuction => exact (cancelAuction_admits.throws.map _).exec h
  | endNow => exact (endNow_throws.map _).exec h
  | closeAuction => exact (closeAuction_throws.map _).exec h
  | placeBid =>
    rcases placeBid_raises (hbids _) (exec_then_pure_error h) with hrejected | hclash
    · exact hrejected
    · exact absurd hclash hkeys
  | takeForReview => exact takeForReview_raises hfound (exec_then_pure_error h)
  | resolveDispute => exact resolveDispute_raises (hdisputes _) hfound (exec_then_pure_error h)
  | openDispute =>
    have hraised := (openDispute_throws (Q := fun e => ((valueErrorText e).isSome ∨
      ∃ message, e = .permissionError message) ∨ e = .integrityError "pkey") (fun _ => .inl (.inl rfl))
      (fun _ => .inl (.inr ⟨_, rfl⟩)) (.inr rfl)).exec (exec_then_pure_error h)
    exact hraised.resolve_right hkeys
  | markPaid =>
    exact ((markPaid_admits (fun _ => .inl rfl) (fun h => .inr (.inr ⟨h, rfl⟩))
      fun _ => .inr (.inl rfl)).throws.map _).exec h
  | invalidateBid => exact (invalidateBid_admits.throws.map _).exec h
  | savePaymentFailed => exact ((Tx.Admits.throws (says_savePayment _)).map _).exec h
  | recordPaymentFailed => exact ((Tx.Admits.throws says_record).map _).exec h
  | createNotification => exact ((quiet_createNotification ..).throws.map _).exec h
  | deliver => exact ((quiet_send _).throws.map _).exec h
  | saveVerification =>
    obtain ⟨_, _, _, _, he, _⟩ := exec_saveVerification.mp (exec_then_pure_error h)
    cases he
  | saveAccountStatus =>
    obtain ⟨_, _, he, _⟩ := exec_saveAccountStatus.mp (exec_then_pure_error h)
    cases he
  | recordProfile => exact ((Tx.Admits.throws says_record).map _).exec h

/-- The payment of a sale never clashes: the lock is held since it was seen that there is
none. -/
theorem prog_never_late {l : ServiceTx} {s t : Database} {sees : Database → Database → Prop}
    {e : PyError} (h : l.prog.Exec sees s (.error e) t) : ¬ l.Late e := by
  intro hlate
  cases l with
  | closeAuction auction actor =>
    obtain ⟨key, rfl⟩ := hlate
    have hvalue : (valueErrorText (.integrityError key)).isSome :=
      closeAuction_throws.exec (exec_then_pure_error h)
    cases hvalue
  | endNow a actor reason =>
    obtain ⟨key, rfl⟩ := hlate
    have haction : (actionText (.integrityError key)).isSome :=
      endNow_throws.exec (exec_then_pure_error h)
    cases haction
  | _ => exact hlate

end Services

end MbararaAuction
