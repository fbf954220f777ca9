import MbararaAuction.Model.Services

namespace MbararaAuction

/-- What entitles a person to an act: to be staff, to have listed the auction, to have the
role of a bidder, or to have taken part in the auction. -/
inductive Right where
  | staff
  | seller (a : AuctionId)
  | bidder
  | party (a : AuctionId)
deriving DecidableEq

/-- The user `u` is let in on the rows `s` as somebody with this right. -/
def Right.Asked (s : Database) (u : UserId) (right : Right) : Prop :=
  u ∈ s.userPks ∧ (s.users u).isActive = true ∧
    match right with
    | .staff => (s.users u).isOfficerOrAdmin = true
    | .seller a => (s.users u).isOfficerOrAdmin = true ∨
        (s.users u).role = .seller ∧ u = (s.dossier a).row.seller
    | .bidder => (s.users u).isOfficerOrAdmin = true ∨ (s.users u).role = .bidder
    | .party _ => True

/-- The part that is judged on the rows on which the act is committed. -/
def Right.Kept (s : Database) (u : UserId) : Right → Prop
  | .party a => u ∈ auctionParticipants (s.dossier a).row (s.dossier a).bids
  | .staff | .seller _ | .bidder => True

/-- In whose name a transaction writes. -/
def ServiceTx.signer : ServiceTx → Option UserId
  | submitForReview _ u | approve _ u _ | autoSchedule _ u | reject _ u _ | startNow _ u
  | reschedule _ u _ _ _ | pause _ u _ | resume _ u | cancelAuction _ u _ | endNow _ u _
  | placeBid _ u _ | invalidateBid _ _ u _ | markPaid _ u _ _ _ | savePaymentFailed _ u _
  | recordPaymentFailed _ _ u _ | openDispute _ u _ _ | takeForReview _ _ u
  | resolveDispute _ _ u _ _ _ | saveVerification _ _ u | recordProfile _ _ u _ => some u
  | activate _ u | closeAuction _ u => u
  | createNotification _ _ | deliver _ | saveAccountStatus _ _ _ => none

/-- What entitles to a change of status. -/
def Status.right (a : AuctionId) : Status → Right
  | submitted => .seller a
  | disputed => .party a
  | draft | approved | rejected | scheduled | live | paused | closed | settled | completed
  | cancelled => .staff

/-- What entitles to the act that a row of the audit log records. -/
def AuditLog.right (entry : AuditLog) : Right :=
  match entry.action, entry.obj with
  | .auctionCreated, .auction a => .seller a
  | .bidPlaced, _ | .auctionExtended, _ => .bidder
  | .disputeCreated, .dispute a _ => .party a
  | _, _ => .staff

/-- What entitles to a transaction. -/
def ServiceTx.right : ServiceTx → Right
  | submitForReview a _ => .seller a
  | placeBid _ _ _ => .bidder
  | openDispute a _ _ _ => .party a
  | recordProfile p action _ _ => (AuditLog.mk none action p.obj "").right
  | approve _ _ _ | autoSchedule _ _ | reject _ _ _ | startNow _ _ | reschedule _ _ _ _ _
  | pause _ _ _ | resume _ _ | cancelAuction _ _ _ | endNow _ _ _ | invalidateBid _ _ _ _
  | markPaid _ _ _ _ _ | savePaymentFailed _ _ _ | recordPaymentFailed _ _ _ _
  | takeForReview _ _ _ | resolveDispute _ _ _ _ _ _ | saveVerification _ _ _
  | activate _ _ | closeAuction _ _ | createNotification _ _ | deliver _
  | saveAccountStatus _ _ _ => .staff

/-- In whose name a call is made. -/
def Call.signer : Call → Option UserId
  | submitForReview _ u | approve _ u _ | reject _ u _ | startNow _ u | reschedule _ u _ _ _
  | pause _ u _ | resume _ u | cancelAuction _ u _ | endNow _ u _ | placeBid _ u _
  | invalidateBid _ _ u _ | markPaid _ _ _ u _ _ _ | markFailed _ _ _ u _ | openDispute _ u _ _
  | takeForReview _ _ u | resolveDispute _ _ u _ _ _ | verifyProfile _ _ u _ | rejectProfile _ _ u _
  | suspendBidder _ _ u _ | reactivateBidder _ _ u _ => some u
  | activateIfDue _ u | sweepDue u | closeAuction _ u => u
  | closeEndedAuctions | activateScheduledAuctions => none

/-- What entitles to a call. -/
def Call.right : Call → Right
  | submitForReview a _ => .seller a
  | placeBid _ _ _ => .bidder
  | openDispute a _ _ _ => .party a
  | approve _ _ _ | reject _ _ _ | startNow _ _ | reschedule _ _ _ _ _ | pause _ _ _ | resume _ _
  | cancelAuction _ _ _ | endNow _ _ _ | invalidateBid _ _ _ _ | markPaid _ _ _ _ _ _ _
  | markFailed _ _ _ _ _ | takeForReview _ _ _ | resolveDispute _ _ _ _ _ _ | verifyProfile _ _ _ _
  | rejectProfile _ _ _ _ | suspendBidder _ _ _ _ | reactivateBidder _ _ _ _ | activateIfDue _ _
  | sweepDue _ | closeAuction _ _ | closeEndedAuctions | activateScheduledAuctions => .staff

/-- What a column that names a user holds, and what entitles to the act for which it does. -/
abbrev Name := Option UserId × Right

def AuditLog.name (entry : AuditLog) : Name := (entry.actor, entry.right)

def StatusLog.name (a : AuctionId) (log : StatusLog) : Name := (log.changedBy, log.toStatus.right a)

/-- The columns of a bid that name users. -/
inductive BidColumn where
  | bidder | invalidatedBy
deriving DecidableEq

def Bid.name (bid : Bid) : BidColumn → Name
  | .bidder => (some bid.bidder, .bidder)
  | .invalidatedBy => (bid.invalidatedBy, .staff)

def Payment.name (payment : Payment) : Name := (payment.recordedBy, .staff)

/-- The columns of a dispute that name users. -/
inductive DisputeColumn where
  | raisedBy | assignedTo | resolvedBy
deriving DecidableEq

def Dispute.name (a : AuctionId) (dispute : Dispute) : DisputeColumn → Name
  | .raisedBy => (some dispute.raisedBy, .party a)
  | .assignedTo => (dispute.assignedTo, .staff)
  | .resolvedBy => (dispute.resolvedBy, .staff)

/-- The columns that name users in the rows about one auction: a log by its place, any other
row by its key. -/
inductive DossierColumn where
  | log (n : Nat)
  | bid (pk : Nat) (column : BidColumn)
  | payment (pk : Nat)
  | dispute (pk : Nat) (column : DisputeColumn)
deriving DecidableEq

/-- What stands in a column, where its row is there. -/
def Dossier.named (a : AuctionId) (d : Dossier) : DossierColumn → Option Name
  | .log n => d.logs[n]?.map (StatusLog.name a)
  | .bid pk column => (d.bids.find? (fun b => b.pk = pk)).map (·.name column)
  | .payment pk => (d.payments.find? (fun p => p.pk = pk)).map Payment.name
  | .dispute pk column => (d.disputes.find? (fun x => x.pk = pk)).map (·.name a column)

/-- All columns of the database that name who did something to an auction or a profile. -/
inductive Column where
  | audit (n : Nat)
  | about (a : AuctionId) (column : DossierColumn)
deriving DecidableEq

def Database.named (s : Database) : Column → Option Name
  | .audit n => s.audit[n]?.map AuditLog.name
  | .about a column => (s.dossier a).named a column

end MbararaAuction
