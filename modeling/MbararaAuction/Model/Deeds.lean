import MbararaAuction.Model.Services

namespace MbararaAuction
open Transactions

/-- A call of a service function, with the objects that its caller holds. -/
inductive Deed where
  | transition (a : AuctionId) (toStatus : Status) (actor : Option UserId) (reason : String)
  | activateIfDue (auction : LoadedAuction) (actor : Option UserId)
  | startNow (a : AuctionId) (actor : UserId)
  | reschedule (a : AuctionId) (actor : UserId) (reason : String) (startTime endTime : Option Time)
  | pause (a : AuctionId) (actor : UserId) (reason : String)
  | resume (a : AuctionId) (actor : UserId)
  | cancelAuction (a : AuctionId) (actor : UserId) (reason : String)
  | endNow (a : AuctionId) (actor : UserId) (reason : String)
  | placeBid (a : AuctionId) (bidderUser : UserId) (amount : Number)
  | invalidateBid (a : AuctionId) (pk : Nat) (actor : UserId) (reason : String)
  | closeAuction (a : AuctionId) (actor : Option UserId) (reason : String)
  | createPendingPayment (auction : LoadedAuction)
  | markPaid (payment : LoadedPayment) (actor : UserId) (method reference notes : String)
  | markFailed (payment : LoadedPayment) (actor : UserId) (reason : String)
  | markRefunded (payment : LoadedPayment) (actor : UserId) (reason : String)
  | openDispute (a : AuctionId) (raisedBy : UserId) (category description : String)
  | takeForReview (a : AuctionId) (pk : Nat) (actor : UserId)
  | resolveDispute (a : AuctionId) (pk : Nat) (actor : UserId) (outcome notes : String)
      (refund : Bool)
  | verifyProfile (profile : Profile) (userSelected : Bool) (actor : UserId) (reason : String)
  | rejectProfile (profile : Profile) (userSelected : Bool) (actor : UserId) (reason : String)
  | suspendBidder (u : UserId) (row : BidderProfile) (userSelected : Bool) (actor : UserId)
      (reason : String)
  | reactivateBidder (u : UserId) (row : BidderProfile) (userSelected : Bool) (actor : UserId)
      (reason : String)

/-- Runs the function alone: in one transaction where it is `transaction.atomic`, and
statement by statement where it is not. -/
def Deed.perform (w : World Database Nat) : Deed → Except PyError Value × World Database Nat
  | transition a toStatus actor reason =>
    (Value.auction <$> MbararaAuction.transition a toStatus actor reason).atomic w
  | activateIfDue auction actor =>
    (MbararaAuction.activateIfDue auction actor .done .fail).run engine w
  | startNow a actor => (Value.auction <$> MbararaAuction.startNow a actor).atomic w
  | reschedule a actor reason startTime endTime =>
    (Value.auction <$> MbararaAuction.reschedule a actor reason startTime endTime).atomic w
  | pause a actor reason => (Value.auction <$> MbararaAuction.pause a actor reason).atomic w
  | resume a actor => (Value.auction <$> MbararaAuction.resume a actor).atomic w
  | cancelAuction a actor reason =>
    (Value.auction <$> MbararaAuction.cancelAuction a actor reason).atomic w
  | endNow a actor reason => (Value.auction <$> MbararaAuction.endNow a actor reason).atomic w
  | placeBid a bidderUser amount =>
    (Value.bid <$> MbararaAuction.placeBid a bidderUser amount).atomic w
  | invalidateBid a pk actor reason => (invalidateBidTask a pk actor reason).run engine w
  | closeAuction a actor reason =>
    (Value.auction <$> MbararaAuction.closeAuction a actor reason).atomic w
  | createPendingPayment auction =>
    ((fun pk => (pk.map Value.key).getD .none) <$>
      MbararaAuction.createPendingPayment auction.pk auction.row).run w
  | markPaid payment actor method reference notes =>
    (Value.payment <$> MbararaAuction.markPaid payment actor method reference notes).atomic w
  | markFailed payment actor reason => (markFailedTask payment actor reason).run engine w
  | markRefunded payment actor reason =>
    ((fun _ => Value.none) <$>
      MbararaAuction.markRefunded payment.auction payment.row actor reason).run w
  | openDispute a raisedBy category description =>
    (Value.dispute <$> MbararaAuction.openDispute a raisedBy category description).atomic w
  | takeForReview a pk actor => (Value.dispute <$> MbararaAuction.takeForReview a pk actor).atomic w
  | resolveDispute a pk actor outcome notes refund =>
    (Value.dispute <$> MbararaAuction.resolveDispute a pk actor outcome notes refund).atomic w
  | verifyProfile profile userSelected actor reason =>
    (verifyProfileTask profile userSelected actor reason).run engine w
  | rejectProfile profile userSelected actor reason =>
    (rejectProfileTask profile userSelected actor reason).run engine w
  | suspendBidder u row userSelected actor reason =>
    (suspendBidderTask u row userSelected actor reason).run engine w
  | reactivateBidder u row userSelected actor reason =>
    (reactivateBidderTask u row userSelected actor reason).run engine w

/-- What others do between two calls; the audit log is not cut short. -/
def Meantime := { f : World Database Nat → World Database Nat //
  ∀ w, w.db.audit <+: (f w).db.audit }

/-- What happens: a function is called, or something else goes on. -/
inductive Occurrence where
  | perform (deed : Deed)
  | meantime (change : Meantime)

/-- A call that succeeds, or anything else. -/
def Occurrence.step (w : World Database Nat) : Occurrence → Option (World Database Nat)
  | perform deed =>
    match deed.perform w with
    | (.ok _, w') => some w'
    | (.error _, _) => none
  | meantime change => some (change.val w)

end MbararaAuction
