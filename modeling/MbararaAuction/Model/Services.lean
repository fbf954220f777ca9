import MbararaAuction.Model.Accounts
import MbararaAuction.Model.Scheduling
import MbararaAuction.Model.Disputes

namespace MbararaAuction
open Transactions

/-- An `Auction` object as some earlier query returned it. -/
structure LoadedAuction where
  pk : AuctionId
  row : Auction
deriving DecidableEq, Repr

/-- The transactions of the services: the `transaction.atomic` functions, and the
single statements that are committed outside any of them. -/
inductive ServiceTx where
  | submitForReview (a : AuctionId) (actor : UserId)
  | approve (a : AuctionId) (actor : UserId) (reason : String)
  | autoSchedule (a : AuctionId) (actor : UserId)
  | reject (a : AuctionId) (actor : UserId) (reason : String)
  | activate (a : AuctionId) (actor : Option UserId)
  | startNow (a : AuctionId) (actor : UserId)
  | reschedule (a : AuctionId) (actor : UserId) (reason : String) (startTime endTime : Option Time)
  | pause (a : AuctionId) (actor : UserId) (reason : String)
  | resume (a : AuctionId) (actor : UserId)
  | cancelAuction (a : AuctionId) (actor : UserId) (reason : String)
  | endNow (a : AuctionId) (actor : UserId) (reason : String)
  | placeBid (a : AuctionId) (bidderUser : UserId) (amount : Number)
  | invalidateBid (a : AuctionId) (pk : Nat) (actor : UserId) (reason : String)
  | closeAuction (auction : LoadedAuction) (actor : Option UserId)
  | markPaid (payment : LoadedPayment) (actor : UserId) (method reference notes : String)
  | savePaymentFailed (payment : LoadedPayment) (actor : UserId) (reason : String)
  | recordPaymentFailed (a : AuctionId) (pk : Nat) (actor : UserId) (reason : String)
  | createNotification (user : UserId) (notice : Notice)
  | deliver (pk : Nat)
  | openDispute (a : AuctionId) (raisedBy : UserId) (category description : String)
  | takeForReview (a : AuctionId) (pk : Nat) (actor : UserId)
  | resolveDispute (a : AuctionId) (pk : Nat) (actor : UserId) (outcome notes : String)
      (refund : Bool)
  | saveVerification (profile : Profile) (status : VerificationStatus) (actor : UserId)
  | saveAccountStatus (u : UserId) (row : BidderProfile) (status : AccountStatus)
  | recordProfile (p : ProfileRef) (action : AuditAction) (actor : UserId) (reason : String)

/-- What a transaction or a call returns. -/
inductive Value where
  | none
  | auction (row : Auction)
  | bid (bid : Bid)
  | payment (payment : Payment)
  | dispute (dispute : Dispute)
  | profile (profile : Profile)
  | key (pk : Nat)
  | count (n : Nat)
  | counts (started closed : Nat)
deriving DecidableEq, Repr

def ServiceTx.prog : ServiceTx → Prog Value
  | submitForReview a actor => Value.auction <$> MbararaAuction.submitForReview a actor
  | approve a actor reason => Value.auction <$> MbararaAuction.approve a actor reason
  | autoSchedule a actor => Value.auction <$> MbararaAuction.autoSchedule a actor
  | reject a actor reason => Value.auction <$> MbararaAuction.reject a actor reason
  | activate a actor => Value.auction <$> MbararaAuction.activate a actor
  | startNow a actor => Value.auction <$> MbararaAuction.startNow a actor
  | reschedule a actor reason startTime endTime =>
    Value.auction <$> MbararaAuction.reschedule a actor reason startTime endTime
  | pause a actor reason => Value.auction <$> MbararaAuction.pause a actor reason
  | resume a actor => Value.auction <$> MbararaAuction.resume a actor
  | cancelAuction a actor reason => Value.auction <$> MbararaAuction.cancelAuction a actor reason
  | endNow a actor reason => Value.auction <$> MbararaAuction.endNow a actor reason
  | placeBid a bidderUser amount => Value.bid <$> MbararaAuction.placeBid a bidderUser amount
  | invalidateBid a pk actor reason =>
    (fun _ => Value.none) <$> MbararaAuction.invalidateBid a pk actor reason
  | closeAuction auction actor =>
    Value.auction <$> MbararaAuction.closeAuction auction.pk actor automatedClosing
  | markPaid payment actor method reference notes =>
    Value.payment <$> MbararaAuction.markPaid payment actor method reference notes
  | savePaymentFailed payment actor reason =>
    (fun _ => Value.none) <$> MbararaAuction.savePaymentFailed payment actor reason
  | recordPaymentFailed a pk actor reason =>
    (fun _ => Value.none) <$> MbararaAuction.recordPaymentFailed a pk actor reason
  | createNotification user notice =>
    Value.key <$> MbararaAuction.createNotification user notice
  | deliver pk => (fun _ => Value.none) <$> Tx.send pk
  | openDispute a raisedBy category description =>
    Value.dispute <$> MbararaAuction.openDispute a raisedBy category description
  | takeForReview a pk actor => Value.dispute <$> MbararaAuction.takeForReview a pk actor
  | resolveDispute a pk actor outcome notes refund =>
    Value.dispute <$> MbararaAuction.resolveDispute a pk actor outcome notes refund
  | saveVerification profile status actor =>
    Value.profile <$> MbararaAuction.saveVerification profile status actor
  | saveAccountStatus u row status =>
    Value.profile <$> MbararaAuction.saveAccountStatus u row status
  | recordProfile p action actor reason =>
    (fun _ => Value.none) <$> MbararaAuction.recordProfile p action actor reason

abbrev ServiceTask := Task Database PyError Value ServiceTx

/-- One transaction and nothing else. -/
def ServiceTx.alone (l : ServiceTx) : ServiceTask := .tx l .done .fail

/-- `approve`: the second transaction only after the first. -/
def approveTask (a : AuctionId) (actor : UserId) (reason : String) : ServiceTask :=
  .tx (.approve a actor reason) (fun _ => (ServiceTx.autoSchedule a actor).alone) .fail

/-- `activate_if_due` on an object loaded before. -/
def activateIfDue (auction : LoadedAuction) (actor : Option UserId)
    (ok : Value → ServiceTask) (err : PyError → ServiceTask) : ServiceTask :=
  .look fun s =>
    if auction.row.status = .scheduled ∧ auction.row.startTime ≤ s.clock then
      .tx (.activate auction.pk actor) ok err
    else ok (.auction auction.row)

/-- `Auction.objects.filter(...)`. -/
def auctionsWhere (s : Database) (f : Auction → Bool) : List LoadedAuction :=
  (s.auctionPks.map (fun a => ⟨a, (s.dossier a).row⟩)).filter (fun x => f x.row)

/-- The loop over the auctions that are due to start. -/
def activateEach (actor : Option UserId) (catches : PyError → Bool) :
    List LoadedAuction → Nat → (Nat → ServiceTask) → ServiceTask
  | [], count, next => next count
  | auction :: rest, count, next =>
    activateIfDue auction actor (fun _ => activateEach actor catches rest (count + 1) next)
      (fun e => if catches e then activateEach actor catches rest count next else .fail e)

/-- The loop over the auctions that are due to close. -/
def closeEach (actor : Option UserId) (catches : PyError → Bool) :
    List LoadedAuction → Nat → (Nat → ServiceTask) → ServiceTask
  | [], count, next => next count
  | auction :: rest, count, next =>
    .tx (.closeAuction auction actor) (fun _ => closeEach actor catches rest (count + 1) next)
      (fun e => if catches e then closeEach actor catches rest count next else .fail e)

def dueToStart (t : Time) (row : Auction) : Bool := row.status == .scheduled && row.startTime ≤ t

def dueToClose (t : Time) (row : Auction) : Bool := row.status == .live && row.endTime ≤ t

/-- `sweep_due`. Each query is evaluated when its loop begins. -/
def sweepDue (actor : Option UserId) : ServiceTask :=
  .look fun s =>
    let t := s.clock
    .look fun s =>
      activateEach actor PyError.isValidationError (auctionsWhere s (dueToStart t)) 0 fun started =>
        .look fun s =>
          closeEach actor (fun e => e.isValueError || e.isInvalidTransition)
            (auctionsWhere s (dueToClose t)) 0 fun closed => .done (.counts started closed)

/-- The command `close_ended_auctions`. -/
def closeEndedAuctions : ServiceTask :=
  .look fun s =>
    let t := s.clock
    .look fun s =>
      closeEach none (fun _ => false) (auctionsWhere s (dueToClose t)) 0 fun n => .done (.count n)

/-- The command `activate_scheduled_auctions`. -/
def activateScheduledAuctions : ServiceTask :=
  .look fun s =>
    let t := s.clock
    .look fun s =>
      activateEach none (fun _ => false) (auctionsWhere s (dueToStart t)) 0 fun n => .done (.count n)

/-- Loads a payment by its key, with its auction when the query selects it too. -/
def withPayment (a : AuctionId) (pk : Nat) (selectRelated : Bool)
    (next : LoadedPayment → ServiceTask) : ServiceTask :=
  .look fun s =>
    match (s.dossier a).payments.find? (fun p => p.pk = pk) with
    | none => .fail .doesNotExist
    | some row => next ⟨a, row, if selectRelated then some (s.dossier a).row else none⟩

/-- `notify` outside any transaction. -/
def notifyTask (notice : Notice) (next : ServiceTask) : ServiceTask :=
  match notice.recipient with
  | none => next
  | some user =>
    .tx (.createNotification user notice) (fun v =>
      match v with
      | .key pk => .tx (.deliver pk) (fun _ => next) .fail
      | _ => next) .fail

/-- `mark_failed` on an object loaded before. -/
def markFailedTask (payment : LoadedPayment) (actor : UserId) (reason : String) : ServiceTask :=
  let a := payment.auction
  let pk := payment.row.pk
  if reason = "" then .fail (.valueError "A reason is required to mark a payment failed.")
  else if payment.row.status ≠ .pending then .fail (.valueError
    s!"Cannot mark payment #{pk} failed: current status is {payment.row.status.value}, not PENDING.")
  else
    let finish (auction : Auction) : ServiceTask :=
      notifyTask (paymentFailedNotice a auction pk reason)
        (.done (.payment (payment.row.failedWith actor reason)))
    .tx (.savePaymentFailed payment actor reason) (fun _ =>
      .tx (.recordPaymentFailed a pk actor reason) (fun _ =>
        match payment.cachedAuction with
        | some auction => finish auction
        | none => .look fun s => finish (s.dossier a).row) .fail) .fail

/-- Loads a profile by its key. -/
def withProfile (p : ProfileRef) (next : Profile → ServiceTask) : ServiceTask :=
  .look fun s =>
    match s.profile p with
    | none => .fail .doesNotExist
    | some profile => next profile

/-- Loads a bidder profile by its key. -/
def withBidder (u : UserId) (next : BidderProfile → ServiceTask) : ServiceTask :=
  .look fun s =>
    match s.bidderProfiles u with
    | none => .fail .doesNotExist
    | some row => next row

/-- What the functions on profiles do after their save: the audit row, and the
notification of `profile.user`, which is a query where the user was not selected too. -/
def announceTask (p : ProfileRef) (userSelected : Bool) (action : AuditAction) (actor : UserId)
    (reason : String) (notice : Notice) (result : Value) : ServiceTask :=
  .tx (.recordProfile p action actor reason) (fun _ =>
    if userSelected then notifyTask notice (.done result)
    else .look fun _ => notifyTask notice (.done result)) .fail

/-- `_apply_verification` on an object loaded before. -/
def applyVerificationTask (profile : Profile) (userSelected : Bool) (status : VerificationStatus)
    (actor : UserId) (reason : String) : ServiceTask :=
  let p := profile.ref
  .tx (.saveVerification profile status actor) (fun result =>
    announceTask p userSelected (if status = .verified then .userVerified else .userSuspended) actor
      reason (if status = .verified then accountVerifiedNotice p else accountRejectedNotice p reason)
      result) .fail

def verifyProfileTask (profile : Profile) (userSelected : Bool) (actor : UserId) (reason : String) :
    ServiceTask :=
  applyVerificationTask profile userSelected .verified actor reason

def rejectProfileTask (profile : Profile) (userSelected : Bool) (actor : UserId) (reason : String) :
    ServiceTask :=
  if reason = "" then .fail (.valueError
    "A reason is required when rejecting a profile (Section 16: 'Record ... Reason').")
  else applyVerificationTask profile userSelected .rejected actor reason

def suspendBidderTask (u : UserId) (row : BidderProfile) (userSelected : Bool) (actor : UserId)
    (reason : String) : ServiceTask :=
  if reason = "" then .fail (.valueError "A reason is required when suspending an account.")
  else
    .tx (.saveAccountStatus u row .suspended) (fun result =>
      announceTask (.bidder u) userSelected .userSuspended actor reason
        (bidderSuspendedNotice u reason) result) .fail

def reactivateBidderTask (u : UserId) (row : BidderProfile) (userSelected : Bool) (actor : UserId)
    (reason : String) : ServiceTask :=
  .tx (.saveAccountStatus u row .active) (fun result =>
    announceTask (.bidder u) userSelected .userVerified actor
      (if reason = "" then "Reactivated" else reason) (bidderReactivatedNotice u) result) .fail

/-- `invalidate_bid`: the bid exists, its status is not asked for. -/
def invalidateBidTask (a : AuctionId) (pk : Nat) (actor : UserId) (reason : String) : ServiceTask :=
  .look fun s =>
    match (s.dossier a).bids.find? (fun b => b.pk = pk) with
    | none => .fail .doesNotExist
    | some _ =>
      if reason = "" then
        .fail (.valueError "A reason is required to invalidate a bid (Section 20).")
      else (ServiceTx.invalidateBid a pk actor reason).alone

/-- The calls that people, the admin site and the timers make. -/
inductive Call where
  | submitForReview (a : AuctionId) (actor : UserId)
  | approve (a : AuctionId) (actor : UserId) (reason : String)
  | reject (a : AuctionId) (actor : UserId) (reason : String)
  | activateIfDue (a : AuctionId) (actor : Option UserId)
  | startNow (a : AuctionId) (actor : UserId)
  | reschedule (a : AuctionId) (actor : UserId) (reason : String) (startTime endTime : Option Time)
  | pause (a : AuctionId) (actor : UserId) (reason : String)
  | resume (a : AuctionId) (actor : UserId)
  | cancelAuction (a : AuctionId) (actor : UserId) (reason : String)
  | endNow (a : AuctionId) (actor : UserId) (reason : String)
  | sweepDue (actor : Option UserId)
  | closeEndedAuctions
  | activateScheduledAuctions
  | placeBid (a : AuctionId) (bidderUser : UserId) (amount : Number)
  | invalidateBid (a : AuctionId) (pk : Nat) (actor : UserId) (reason : String)
  | closeAuction (a : AuctionId) (actor : Option UserId)
  | markPaid (a : AuctionId) (pk : Nat) (selectRelated : Bool) (actor : UserId)
      (method reference notes : String)
  | markFailed (a : AuctionId) (pk : Nat) (selectRelated : Bool) (actor : UserId) (reason : String)
  | openDispute (a : AuctionId) (raisedBy : UserId) (category description : String)
  | takeForReview (a : AuctionId) (pk : Nat) (actor : UserId)
  | resolveDispute (a : AuctionId) (pk : Nat) (actor : UserId) (outcome notes : String)
      (refund : Bool)
  | verifyProfile (p : ProfileRef) (userSelected : Bool) (actor : UserId) (reason : String)
  | rejectProfile (p : ProfileRef) (userSelected : Bool) (actor : UserId) (reason : String)
  | suspendBidder (u : UserId) (userSelected : Bool) (actor : UserId) (reason : String)
  | reactivateBidder (u : UserId) (userSelected : Bool) (actor : UserId) (reason : String)

def Call.body : Call → ServiceTask
  | submitForReview a actor => (ServiceTx.submitForReview a actor).alone
  | approve a actor reason => approveTask a actor reason
  | reject a actor reason => (ServiceTx.reject a actor reason).alone
  | activateIfDue a actor =>
    .look fun s => MbararaAuction.activateIfDue ⟨a, (s.dossier a).row⟩ actor .done .fail
  | startNow a actor => (ServiceTx.startNow a actor).alone
  | reschedule a actor reason startTime endTime =>
    (ServiceTx.reschedule a actor reason startTime endTime).alone
  | pause a actor reason => (ServiceTx.pause a actor reason).alone
  | resume a actor => (ServiceTx.resume a actor).alone
  | cancelAuction a actor reason => (ServiceTx.cancelAuction a actor reason).alone
  | endNow a actor reason => (ServiceTx.endNow a actor reason).alone
  | sweepDue actor => MbararaAuction.sweepDue actor
  | closeEndedAuctions => MbararaAuction.closeEndedAuctions
  | activateScheduledAuctions => MbararaAuction.activateScheduledAuctions
  | placeBid a bidderUser amount => (ServiceTx.placeBid a bidderUser amount).alone
  | invalidateBid a pk actor reason => invalidateBidTask a pk actor reason
  | closeAuction a actor =>
    .look fun s => (ServiceTx.closeAuction ⟨a, (s.dossier a).row⟩ actor).alone
  | markPaid a pk selectRelated actor method reference notes =>
    withPayment a pk selectRelated fun payment =>
      (ServiceTx.markPaid payment actor method reference notes).alone
  | markFailed a pk selectRelated actor reason =>
    withPayment a pk selectRelated fun payment => markFailedTask payment actor reason
  | openDispute a raisedBy category description =>
    (ServiceTx.openDispute a raisedBy category description).alone
  | takeForReview a pk actor => (ServiceTx.takeForReview a pk actor).alone
  | resolveDispute a pk actor outcome notes refund =>
    (ServiceTx.resolveDispute a pk actor outcome notes refund).alone
  | verifyProfile p userSelected actor reason =>
    withProfile p fun profile => verifyProfileTask profile userSelected actor reason
  | rejectProfile p userSelected actor reason =>
    withProfile p fun profile => rejectProfileTask profile userSelected actor reason
  | suspendBidder u userSelected actor reason =>
    withBidder u fun row => suspendBidderTask u row userSelected actor reason
  | reactivateBidder u userSelected actor reason =>
    withBidder u fun row => reactivateBidderTask u row userSelected actor reason

/-- What happens without a call: time passes, and staff change accounts. -/
inductive Outside where
  | tick (microseconds : Nat)
  | setUser (u : UserId) (user : User)
  | setBidderProfile (u : UserId) (profile : Option BidderProfile)

def Outside.apply (v : Outside) (s : Database) : Database :=
  match v with
  | tick n => { s with clock := s.clock + n }
  | setUser u user => { s with users := fun x => if x = u then user else s.users x }
  | setBidderProfile u profile =>
    { s with bidderProfiles := fun x => if x = u then profile else s.bidderProfiles x }

/-- The services over one database. -/
def engine : System Database RowKey PyError Nat Value ServiceTx Call Outside where
  prog := ServiceTx.prog
  body := Call.body
  outside := Outside.apply
  fault := .operationalError

end MbararaAuction
