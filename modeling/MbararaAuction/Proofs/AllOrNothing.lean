import MbararaAuction.Proofs.Effects
import MbararaAuction.Proofs.Served
import MbararaAuction.Transactions.Failures

namespace MbararaAuction
open Transactions

seal Tx.Exec

/-- The rows with what the calls on payments and profiles save. -/
def Call.saved (call : Call) (s : Database) : Database :=
  match call with
  | markPaid a pk _ actor method reference notes =>
    s.amend a (.received pk actor method reference notes s.clock)
  | markFailed a pk _ actor reason => s.amend a (.onPayment pk (.failedWith actor reason))
  | verifyProfile p _ actor _ => s.verify p .verified actor s.clock s.clock
  | rejectProfile p _ actor _ => s.verify p .rejected actor s.clock s.clock
  | suspendBidder u _ _ _ => s.onBidder u (.withAccountStatus .suspended s.clock)
  | reactivateBidder u _ _ _ => s.onBidder u (.withAccountStatus .active s.clock)
  | _ => s

/-- What was saved, one audit row for it, and the notifications that go with it. -/
structure Recorded (saved : Database) (row : AuditLog)
    (told : List (UserId × NotificationEvent × ObjRef)) (s s' : Database) : Prop where
  changed : s'.dossier = saved.dossier ∧ s'.sellerProfiles = saved.sellerProfiles ∧
    s'.bidderProfiles = saved.bidderProfiles
  audited : s'.audit = s.audit ++ [row]
  notified : ∃ notes, s'.notifications = s.notifications ++ notes ∧
    notes.map Notification.told = told

/-- What the calls on payments and profiles leave behind when they return. -/
def Call.Effect (call : Call) (s s' : Database) : Prop :=
  match call with
  | markPaid a pk _ actor _ _ _ =>
    Recorded (call.saved s) ⟨some actor, .paymentReceived, .payment a pk, ""⟩
      (((s.dossier a).row.winner.toList ++ [(s.dossier a).row.seller]).map
        fun u => (u, .paymentReceived, .payment a pk)) s s'
  | markFailed a pk _ actor reason =>
    Recorded (call.saved s) ⟨some actor, .paymentFailed, .payment a pk, reason⟩
      ((s.dossier a).row.winner.toList.map fun u => (u, .paymentFailed, .payment a pk)) s s'
  | verifyProfile p _ actor reason =>
    Recorded (call.saved s) ⟨some actor, .userVerified, p.obj, reason⟩
      [(p.user, .accountVerified, p.obj)] s s'
  | rejectProfile p _ actor reason =>
    Recorded (call.saved s) ⟨some actor, .userSuspended, p.obj, reason⟩
      [(p.user, .accountRejected, p.obj)] s s'
  | suspendBidder u _ actor reason =>
    Recorded (call.saved s) ⟨some actor, .userSuspended, .bidderProfile u, reason⟩
      [(u, .accountSuspended, .bidderProfile u)] s s'
  | reactivateBidder u _ actor reason =>
    Recorded (call.saved s)
      ⟨some actor, .userVerified, .bidderProfile u, if reason = "" then "Reactivated" else reason⟩
      [(u, .accountReactivated, .bidderProfile u)] s s'
  | _ => True

/-- The calls on payments and profiles. -/
def Call.records : Call → Bool
  | markPaid _ _ _ _ _ _ _ | markFailed _ _ _ _ _ | verifyProfile _ _ _ _ | rejectProfile _ _ _ _
  | suspendBidder _ _ _ _ | reactivateBidder _ _ _ _ => true
  | _ => false

/-- Of these calls, the one on an atomic function. -/
def Call.atomic : Call → Bool
  | markPaid _ _ _ _ _ _ _ => true
  | _ => false

/-- A call that raises leaves the rows as they were; one that returns leaves all that
belongs to it. -/
def AllOrNothing (call : Call) (s : Database) (out : Except PyError Value) (s' : Database) : Prop :=
  match out with
  | .ok _ => call.Effect s s'
  | .error _ => s' = s

/-- The rows once the call has committed so many of its transactions. -/
def Call.Left (call : Call) (s : Database) : Nat → Database → Prop
  | 0, s' => s' = s
  | 1, s' => s' = call.saved s
  | _ + 2, s' => s' ≠ s

/-- How a call ends, where `A` says whether a fault strikes. -/
def Call.Ended (call : Call) (A : Prop) (s : Database) (n : Nat) (out : Except PyError Value)
    (s' : Database) : Prop :=
  match out with
  | .ok _ => call.Effect s s'
  | .error _ => (n = 0 ∧ s' = s) ∨ (A ∧ call.Left s n s')

section Ensures
variable {first s s' : Database} {a : AuctionId} {call : Call} {A : Prop} {n : Nat}

abbrev Completes (call : Call) (A : Prop) (first : Database) (n : Nat) (t : ServiceTask)
    (s : Database) : Prop :=
  t.Ensures engine A (call.Ended A first) n s

/-- What follows the audit row fails too late. -/
theorem audited_late {row : AuditLog} (haudit : s.audit = first.audit ++ [row]) : s ≠ first := by
  rintro rfl
  have hlength := congrArg List.length haudit
  simp at hlength

/-- A notification outside any transaction comes last. -/
theorem notifyTask_completes {notice : Notice} {result : Value} {row : AuditLog}
    (haudit : s.audit = first.audit ++ [row])
    (h : ∀ notes, notes.map Notification.told = notice.told →
      call.Effect first { s with notifications := s.notifications ++ notes }) :
    Completes call A first (n + 2) (notifyTask notice (.done result)) s := by
  unfold notifyTask
  unfold Notice.told at h
  cases hu : notice.recipient with
  | none =>
    have hnone := h [] (by simp [hu])
    simp only [List.append_nil] at hnone
    exact hnone
  | some user =>
    refine ⟨fun r s' hx => ?_, fun e s' hx => ?_, fun hA => .inr ⟨hA, audited_late haudit⟩⟩
    · obtain ⟨pk, rfl, hcreate⟩ := exec_then_pure hx
      obtain ⟨_, hpk, rfl⟩ := exec_createNotification.mp hcreate
      cases hpk
      refine ⟨fun r s' hx => ?_, fun e s' hx => ?_, fun hA => .inr ⟨hA, audited_late haudit⟩⟩
      · obtain ⟨_, _, hsend⟩ := exec_then_pure hx
        obtain ⟨_, rfl⟩ := exec_send.mp hsend
        exact h [⟨_, user, notice.event, .inApp, notice.title, notice.message, notice.obj, notice.link⟩]
          (by simp [hu, Notification.told])
      · exact absurd (exec_then_pure_error hx) (quiet_send _).no_error
    · exact absurd (exec_then_pure_error hx) (quiet_createNotification ..).no_error

theorem announceTask_completes {p : ProfileRef} {userSelected : Bool} {action : AuditAction}
    {actor : UserId} {reason : String} {notice : Notice} {result : Value}
    (h : ∀ notes, notes.map Notification.told = notice.told → call.Effect first
      { s with audit := s.audit ++ [⟨some actor, action, p.obj, reason⟩],
               notifications := s.notifications ++ notes })
    (haudit : s.audit = first.audit) (hsaved : s = call.saved first) :
    Completes call A first 1 (announceTask p userSelected action actor reason notice result) s := by
  refine ⟨fun r s' hx => ?_, fun e s' hx => ?_, fun hA => .inr ⟨hA, hsaved⟩⟩
  · obtain ⟨_, _, hrecord⟩ := exec_then_pure hx
    obtain ⟨_, rfl⟩ := exec_record.mp hrecord
    have hlast : s.audit ++ [⟨some actor, action, p.obj, reason⟩] =
        first.audit ++ [⟨some actor, action, p.obj, reason⟩] := by
      rw [haudit]
    have hnotify : Completes call A first 2 (notifyTask notice (.done result))
        { s with audit := s.audit ++ [⟨some actor, action, p.obj, reason⟩] } :=
      notifyTask_completes hlast h
    beta_reduce
    split
    · exact hnotify
    · exact ⟨hnotify, fun hA => .inr ⟨hA, audited_late hlast⟩⟩
  · exact absurd (exec_then_pure_error hx) (quiet_record ..).no_error

/-- What was saved, once it is announced. -/
theorem announced (saved s : Database) {row : AuditLog} {notice : Notice}
    (haudit : saved.audit = s.audit) (hnotified : saved.notifications = s.notifications) :
    ∀ notes, notes.map Notification.told = notice.told → Recorded saved row notice.told s
      { saved with audit := saved.audit ++ [row],
                   notifications := saved.notifications ++ notes } := by
  intro notes hnotes
  refine ⟨⟨rfl, rfl, rfl⟩, ?_, notes, ?_, hnotes⟩
  · rw [haudit]
  · rw [hnotified]

theorem verify_audit (p : ProfileRef) (status : VerificationStatus) (actor : UserId)
    (t saved : Time) : (s.verify p status actor t saved).audit = s.audit := by
  cases p <;> rfl

theorem verify_notifications (p : ProfileRef) (status : VerificationStatus) (actor : UserId)
    (t saved : Time) : (s.verify p status actor t saved).notifications = s.notifications := by
  cases p <;> rfl

theorem applyVerification_completes {profile : Profile} {userSelected : Bool}
    {status : VerificationStatus} {actor : UserId} {reason : String}
    (hsaved : call.saved first = first.verify profile.ref status actor first.clock first.clock)
    (h : ∀ s', Recorded (call.saved first)
      ⟨some actor, if status = .verified then .userVerified else .userSuspended, profile.ref.obj, reason⟩
      (if status = .verified then accountVerifiedNotice profile.ref
        else accountRejectedNotice profile.ref reason).told first s' → call.Effect first s') :
    Completes call A first 0 (applyVerificationTask profile userSelected status actor reason)
      first := by
  refine ⟨fun r s' hx => ?_, fun e s' hx => ?_, fun _ => .inl ⟨rfl, rfl⟩⟩
  · obtain ⟨_, _, hsave⟩ := exec_then_pure hx
    obtain ⟨t, ht, t', ht', _, rfl⟩ := exec_saveVerification.mp hsave
    rw [ht, ht', ← hsaved]
    have haudit : (call.saved first).audit = first.audit := by
      rw [hsaved, verify_audit]
    have hnotified : (call.saved first).notifications = first.notifications := by
      rw [hsaved, verify_notifications]
    exact announceTask_completes (fun notes hnotes => h _ (announced _ _ haudit hnotified notes hnotes))
      haudit rfl
  · obtain ⟨_, _, _, _, herror, _⟩ := exec_saveVerification.mp (exec_then_pure_error hx)
    cases herror

theorem accountStatus_completes {u : UserId} {row : BidderProfile} {status : AccountStatus}
    {userSelected : Bool} {action : AuditAction} {actor : UserId} {reason : String} {notice : Notice}
    (hsaved : call.saved first = first.onBidder u (.withAccountStatus status first.clock))
    (h : ∀ s', Recorded (call.saved first) ⟨some actor, action, .bidderProfile u, reason⟩
      notice.told first s' → call.Effect first s') :
    Completes call A first 0 (.tx (.saveAccountStatus u row status) (fun result =>
      announceTask (.bidder u) userSelected action actor reason notice result) .fail) first := by
  refine ⟨fun r s' hx => ?_, fun e s' hx => ?_, fun _ => .inl ⟨rfl, rfl⟩⟩
  · obtain ⟨_, _, hsave⟩ := exec_then_pure hx
    obtain ⟨t, ht, _, rfl⟩ := exec_saveAccountStatus.mp hsave
    rw [ht, ← hsaved]
    have haudit : (call.saved first).audit = first.audit := by
      rw [hsaved]
      rfl
    have hnotified : (call.saved first).notifications = first.notifications := by
      rw [hsaved]
      rfl
    exact announceTask_completes (fun notes hnotes => h _ (announced _ _ haudit hnotified notes hnotes))
      haudit rfl
  · obtain ⟨_, _, herror, _⟩ := exec_saveAccountStatus.mp (exec_then_pure_error hx)
    cases herror

theorem markFailed_completes {payment : LoadedPayment} {actor : UserId} {reason : String}
    (hcached : ∀ row, payment.cachedAuction = some row → row = (first.dossier payment.auction).row)
    (hsaved : call.saved first =
      first.amend payment.auction (.onPayment payment.row.pk (.failedWith actor reason)))
    (h : ∀ s', Recorded (call.saved first)
      ⟨some actor, .paymentFailed, .payment payment.auction payment.row.pk, reason⟩
      (paymentFailedNotice payment.auction (first.dossier payment.auction).row payment.row.pk
        reason).told first s' → call.Effect first s') :
    Completes call A first 0 (markFailedTask payment actor reason) first := by
  unfold markFailedTask
  split
  · exact .inl ⟨rfl, rfl⟩
  split
  · exact .inl ⟨rfl, rfl⟩
  refine ⟨fun r s' hx => ?_, fun e s' hx => ?_, fun _ => .inl ⟨rfl, rfl⟩⟩
  · obtain ⟨_, _, hsave⟩ := exec_then_pure hx
    obtain ⟨_, rfl⟩ := (exec_savePayment _).mp hsave
    refine ⟨fun r s' hx => ?_, fun e s' hx => ?_, fun hA => .inr ⟨hA, hsaved.symm⟩⟩
    · obtain ⟨_, _, hrecord⟩ := exec_then_pure hx
      obtain ⟨_, rfl⟩ := exec_record.mp hrecord
      let saved := first.amend payment.auction (.onPayment payment.row.pk (.failedWith actor reason))
      rw [hsaved] at h
      have hfinish : Completes call A first 2 (notifyTask (paymentFailedNotice payment.auction
          (first.dossier payment.auction).row payment.row.pk reason)
          (.done (.payment (payment.row.failedWith actor reason))))
          { saved with audit := saved.audit ++ [⟨some actor, .paymentFailed,
            .payment payment.auction payment.row.pk, reason⟩] } :=
        notifyTask_completes rfl fun notes hnotes => h _ (announced saved first rfl rfl notes hnotes)
      split
      · rename_i row hrow
        rw [hcached row hrow]
        exact hfinish
      · refine ⟨?_, fun hA => .inr ⟨hA, audited_late rfl⟩⟩
        dsimp only
        rw [amend_self]
        exact hfinish
    · exact absurd (exec_then_pure_error hx) (quiet_record ..).no_error
  · obtain ⟨herror, _⟩ := (exec_savePayment _).mp (exec_then_pure_error hx)
    cases herror

/-- What is left about one auction is recorded. -/
theorem Leaves.recorded {f : Dossier → Dossier} {row : AuditLog}
    {told : List (UserId × NotificationEvent × ObjRef)}
    (h : Leaves a (f (s.dossier a)) [row] told s s') :
    Recorded (s.amend a f) row told s s' := by
  refine ⟨⟨funext fun b => ?_, h.profiles⟩, h.audited, h.notified⟩
  by_cases hb : b = a
  · rw [hb, h.became.here, amend_self]
  · rw [h.became.there b hb, amend_other _ _ _ hb]

/-- `mark_paid` is one transaction, and leaves all that belongs to it. -/
theorem markPaid_leaves {payment : LoadedPayment} {actor : UserId} {method reference notes : String}
    {p : Payment} (hcached : ∀ row, payment.cachedAuction = some row →
      row = (first.dossier payment.auction).row)
    (h : (markPaid payment actor method reference notes).Exec Exact first (.ok p) s') :
    Leaves payment.auction ((first.dossier payment.auction).received payment.row.pk actor method
        reference notes first.clock)
      [⟨some actor, .paymentReceived, .payment payment.auction payment.row.pk, ""⟩]
      (((first.dossier payment.auction).row.winner.toList ++
        [(first.dossier payment.auction).row.seller]).map
          fun u => (u, .paymentReceived, .payment payment.auction payment.row.pk)) first s' := by
  have hleaves := (markPaid_writes h).leaves
  rw [auctionRow_current hcached] at hleaves
  simp only [receivedSent, List.map_map] at hleaves
  exact hleaves

theorem Loads.completes {α : Type} {load : (α → ServiceTask) → ServiceTask}
    {fits : α → Database → Prop} {B : Prop} (h : Loads load fits) {f : α → ServiceTask}
    (hf : ∀ x, fits x first → (f x).Ensures engine A (call.Ended B first) 0 first) :
    (load f).Ensures engine A (call.Ended B first) 0 first := by
  obtain ⟨rest, hload, hrest⟩ := h.reads f
  rw [hload]
  refine ⟨?_, fun _ => .inl ⟨rfl, rfl⟩⟩
  rcases hrest first with hnone | ⟨x, hx, hsome⟩
  · rw [hnone]
    exact .inl ⟨rfl, rfl⟩
  · rw [hsome]
    exact hf x hx

/-- A fault in an atomic function comes before its commit. -/
theorem atomic_completes (hcall : call.atomic = true) :
    (engine.body call).Ensures engine A (call.Ended False first) 0 first := by
  cases call <;> simp only [Call.atomic, Bool.false_eq_true] at hcall
  case markPaid b pk selectRelated actor method reference notes =>
    refine (withPayment_loads b pk selectRelated).completes (f := fun payment =>
      (ServiceTx.markPaid payment actor method reference notes).alone) ?_
    rintro payment ⟨rfl, rfl, hfits⟩
    refine ⟨fun r s' hx => ?_, fun _ _ _ => .inl ⟨rfl, rfl⟩, fun _ => .inl ⟨rfl, rfl⟩⟩
    obtain ⟨p, hpaid⟩ := exec_map_ok hx
    have hrecorded := (markPaid_leaves hfits.2 hpaid).recorded
    exact hrecorded

theorem Call.Ended.weaken {out : Except PyError Value} {B : Prop} (hAB : A → B)
    (h : call.Ended A s n out s') : call.Ended B s n out s' := by
  cases out with
  | ok v => exact h
  | error e => exact h.imp id (And.imp_left hAB)

theorem body_completes (hcall : call.records = true) :
    Completes call A first 0 (engine.body call) first := by
  cases call <;> simp only [Call.records, Bool.false_eq_true] at hcall
  case markPaid =>
    exact (atomic_completes rfl).mono fun _ _ _ => Call.Ended.weaken False.elim
  case markFailed b pk selectRelated actor reason =>
    refine (withPayment_loads b pk selectRelated).completes
      (f := fun payment => markFailedTask payment actor reason) ?_
    rintro payment ⟨rfl, rfl, hfits⟩
    exact markFailed_completes hfits.2 rfl fun _ h => h
  case verifyProfile p userSelected actor reason =>
    apply (withProfile_loads p).completes
    rintro profile rfl
    exact applyVerification_completes rfl fun _ h => h
  case rejectProfile p userSelected actor reason =>
    apply (withProfile_loads p).completes
    rintro profile rfl
    unfold rejectProfileTask
    split
    · exact .inl ⟨rfl, rfl⟩
    · exact applyVerification_completes rfl fun _ h => h
  case suspendBidder u userSelected actor reason =>
    apply (withBidder_loads u).completes
    intro row _
    unfold suspendBidderTask
    split
    · exact .inl ⟨rfl, rfl⟩
    · exact accountStatus_completes rfl fun _ h => h
  case reactivateBidder u userSelected actor reason =>
    apply (withBidder_loads u).completes
    intro row _
    exact accountStatus_completes rfl fun _ h => h

theorem notifyTask_strict (notice : Notice) (result : Value) :
    (notifyTask notice (.done result)).Strict := by
  unfold notifyTask
  split
  · trivial
  · refine ⟨fun r => ?_, fun _ => rfl⟩
    cases r with
    | key pk => exact ⟨fun _ => trivial, fun _ => rfl⟩
    | _ => trivial

theorem announceTask_strict (p : ProfileRef) (userSelected : Bool) (action : AuditAction)
    (actor : UserId) (reason : String) (notice : Notice) (result : Value) :
    (announceTask p userSelected action actor reason notice result).Strict := by
  refine ⟨fun r => ?_, fun _ => rfl⟩
  cases userSelected with
  | true => exact notifyTask_strict _ _
  | false => exact fun _ => notifyTask_strict _ _

theorem markFailed_strict (payment : LoadedPayment) (actor : UserId) (reason : String) :
    (markFailedTask payment actor reason).Strict := by
  unfold markFailedTask
  split
  · trivial
  split
  · trivial
  refine ⟨fun _ => ⟨fun _ => ?_, fun _ => rfl⟩, fun _ => rfl⟩
  cases payment.cachedAuction with
  | some row => exact notifyTask_strict _ _
  | none => exact fun _ => notifyTask_strict _ _

theorem Loads.strict {α : Type} {load : (α → ServiceTask) → ServiceTask}
    {fits : α → Database → Prop} (h : Loads load fits) {f : α → ServiceTask}
    (hf : ∀ x, (f x).Strict) : (load f).Strict := by
  obtain ⟨rest, hload, hrest⟩ := h.reads f
  rw [hload]
  intro s
  rcases hrest s with hnone | ⟨x, _, hsome⟩
  · rw [hnone]
    trivial
  · rw [hsome]
    exact hf x

/-- None of the calls catches an exception. -/
theorem body_strict (hcall : call.records = true) : (engine.body call).Strict := by
  cases call <;> simp only [Call.records, Bool.false_eq_true] at hcall
  case markPaid b pk selectRelated actor method reference notes =>
    exact (withPayment_loads b pk selectRelated).strict (f := fun payment =>
      (ServiceTx.markPaid payment actor method reference notes).alone) fun _ =>
        ⟨fun _ => trivial, fun _ => rfl⟩
  case markFailed b pk selectRelated actor reason =>
    exact (withPayment_loads b pk selectRelated).strict
      (f := fun payment => markFailedTask payment actor reason) fun _ => markFailed_strict ..
  case verifyProfile p userSelected actor reason =>
    exact (withProfile_loads p).strict fun _ => ⟨fun _ => announceTask_strict .., fun _ => rfl⟩
  case rejectProfile p userSelected actor reason =>
    apply (withProfile_loads p).strict
    intro profile
    unfold rejectProfileTask
    split
    · trivial
    · exact ⟨fun _ => announceTask_strict .., fun _ => rfl⟩
  case suspendBidder u userSelected actor reason =>
    apply (withBidder_loads u).strict
    intro row
    unfold suspendBidderTask
    split
    · trivial
    · exact ⟨fun _ => announceTask_strict .., fun _ => rfl⟩
  case reactivateBidder u userSelected actor reason =>
    exact (withBidder_loads u).strict fun _ => ⟨fun _ => announceTask_strict .., fun _ => rfl⟩

end Ensures

section Calls
variable {c₀ c : Site} {before : List (Site × SiteEvent)} {i : Nat} {call : Call}
variable {out : Except PyError Value}

/-- A call that nobody disturbs is all or nothing exactly when no statement of it fails
after its save is committed, except the next one where the save changes nothing; and one
on an atomic function always is. -/
theorem all_or_nothing_iff (hcall : call.records = true)
    (hi : c₀.sessions i = .ready call (engine.body call)) (hrun : Run engine.step c₀ before c)
    (hof : ∀ x ∈ before, x.2.Of i) (hout : (c.sessions i).outcome = some out) :
    (AllOrNothing call c₀.db out c.db ↔ ((∃ x ∈ before, x.2 = .fault i) →
      commitCount (fun _ => true) before = 0 ∨
        commitCount (fun _ => true) before = 1 ∧ call.saved c₀.db = c₀.db)) ∧
    (call.atomic = true → AllOrNothing call c₀.db out c.db) := by
  have hfaults : ∀ x ∈ before, x.2 = .fault i → ∃ x ∈ before, x.2 = .fault i :=
    fun x hx hfault => ⟨x, hx, hfault⟩
  have hends := hrun.ensures hi (body_completes hcall) hof hfaults hout
  refine ⟨⟨fun hall hfault => ?_, fun hspared => ?_⟩, fun hatomic => ?_⟩
  · obtain rfl := Option.some.inj (hout.symm.trans
      (hrun.struck hi (body_strict hcall) hof hfault))
    rcases hends with ⟨hzero, _⟩ | ⟨_, hleft⟩
    · exact .inl hzero
    · match hn : commitCount (fun _ => true) before, hleft with
      | 0, _ => exact .inl rfl
      | 1, hsaved => exact .inr ⟨rfl, hsaved.symm.trans hall⟩
      | n + 2, hchanged => exact absurd hall hchanged
  · cases out with
    | ok v => exact hends
    | error e =>
      rcases hends with ⟨_, hsame⟩ | ⟨hfault, hleft⟩
      · exact hsame
      · rcases hspared hfault with hzero | ⟨hone, hsame⟩
        · rw [hzero] at hleft
          exact hleft
        · rw [hone] at hleft
          exact hleft.trans hsame
  · have hkept := hrun.ensures hi (atomic_completes hatomic) hof hfaults hout
    cases out with
    | ok v => exact hkept
    | error e => exact (hkept.resolve_right fun h => h.1).2

/-- The call is about to be made on the sample rows. -/
def beginning (call : Call) : Site :=
  (Config.initial sampleDatabase).place 0 (.ready call (engine.body call))

/-- `suspend_bidder` fails at its audit row. -/
theorem suspended_unaudited : ¬ ∀ (c₀ c : Site) (before : List (Site × SiteEvent)) (i : Nat)
    (call : Call) (out : Except PyError Value), call.records = true →
    c₀.sessions i = .ready call (engine.body call) → Run engine.step c₀ before c →
    (∀ x ∈ before, x.2.Of i) → (c.sessions i).outcome = some out →
    AllOrNothing call c₀.db out c.db := by
  intro hall
  obtain ⟨before, c, hrun, hof, hq⟩ := play_where engine.step
    (beginning (.suspendBidder 2 true 0 "Fraud")) (fun _ ev => decide (ev.Of 0))
    (moves 0 6 ++ [.fault 0]) (fun c => (c.sessions 0).outcome.any (fun out => !out.isOk) &&
      decide ((c.db.bidderProfiles 2).map BidderProfile.accountStatus = some .suspended))
    (by decide +kernel)
  simp only [Bool.and_eq_true, decide_eq_true_eq] at hq hof
  obtain ⟨hraised, hsuspended⟩ := hq
  obtain ⟨out, hout, hraised⟩ := (Option.any_eq_true ..).mp hraised
  cases out with
  | ok v => cases hraised
  | error e =>
    have hsame : c.db = sampleDatabase := hall _ c before 0 _ _ rfl rfl hrun hof hout
    rw [hsame] at hsuspended
    exact absurd hsuspended (by decide)

/-- Undisturbed, it leaves all that it should. -/
theorem all_or_nothing_sample : ∃ before c out, Run engine.step
    (beginning (.suspendBidder 2 true 0 "Fraud")) before c ∧
    (c.sessions 0).outcome = some out ∧ out.isOk = true ∧
    AllOrNothing (.suspendBidder 2 true 0 "Fraud") sampleDatabase out c.db := by
  obtain ⟨before, c, hrun, hact, hq⟩ := play_where engine.step
    (beginning (.suspendBidder 2 true 0 "Fraud")) (fun _ ev => ev.smooth && decide (ev.Of 0))
    (moves 0 16) (fun c => (c.sessions 0).outcome.any Except.isOk) (by decide +kernel)
  simp only [Bool.and_eq_true, decide_eq_true_eq] at hact
  obtain ⟨out, hout, hok⟩ := (Option.any_eq_true ..).mp hq
  have hready : (beginning (.suspendBidder 2 true 0 "Fraud")).sessions 0 =
      .ready (.suspendBidder 2 true 0 "Fraud") (engine.body (.suspendBidder 2 true 0 "Fraud")) := rfl
  have hiff := all_or_nothing_iff rfl hready hrun (fun x hx => (hact x hx).2) hout
  refine ⟨before, c, out, hrun, hout, hok, hiff.1.mpr ?_⟩
  rintro ⟨x, hx, hfault⟩
  have hsmooth := (hact x hx).1
  rw [hfault] at hsmooth
  cases hsmooth

end Calls

end MbararaAuction
