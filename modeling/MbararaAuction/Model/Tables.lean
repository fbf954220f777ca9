import Mathlib.Tactic.Simps.Basic
import MbararaAuction.Model.Values

namespace MbararaAuction

abbrev UserId := Nat
abbrev AuctionId := Nat

/-- `Auction.Status`. -/
inductive Status where
  | draft | submitted | approved | rejected | scheduled | live | paused | closed
  | settled | completed | cancelled | disputed
deriving DecidableEq, Repr

def Status.value : Status → String
  | draft => "DRAFT" | submitted => "SUBMITTED" | approved => "APPROVED" | rejected => "REJECTED"
  | scheduled => "SCHEDULED" | live => "LIVE" | paused => "PAUSED" | closed => "CLOSED"
  | settled => "SETTLED" | completed => "COMPLETED" | cancelled => "CANCELLED"
  | disputed => "DISPUTED"

/-- `get_status_display`. -/
def Status.display : Status → String
  | draft => "Draft" | submitted => "Submitted for review" | approved => "Approved"
  | rejected => "Rejected" | scheduled => "Scheduled" | live => "Live" | paused => "Paused"
  | closed => "Closed" | settled => "Settled" | completed => "Completed"
  | cancelled => "Cancelled" | disputed => "Disputed"

/-- A row of `Auction`. The seller is named by the user behind the profile. -/
structure Auction where
  seller : UserId
  category : Nat
  title : String
  description : String
  location : String
  startingPrice : Money
  reservePrice : Option Money
  minIncrement : Money
  currentHighestBid : Option Money
  startTime : Time
  endTime : Time
  extensionMinutes : Nat
  status : Status
  winner : Option UserId
  finalPrice : Option Money
  reserveMet : Option Bool
deriving DecidableEq, Repr

/-- `auction.status = status`. -/
@[simps] def Auction.withStatus (status : Status) (row : Auction) : Auction :=
  { row with status := status }

@[simps] def Auction.withStart (t : Time) (row : Auction) : Auction := { row with startTime := t }

@[simps] def Auction.withTimes (startTime endTime : Time) (row : Auction) : Auction :=
  { row with startTime := startTime, endTime := endTime }

@[simps] def Auction.withHighest (highest : Option Money) (row : Auction) : Auction :=
  { row with currentHighestBid := highest }

/-- What a bid changes in the auction row. -/
@[simps] def Auction.withBid (amount : Money) (endTime : Time) (row : Auction) : Auction :=
  { row with currentHighestBid := some amount, endTime := endTime }

/-- What `close_auction` decides: `winner_user`, `final_price` and `reserve_met`. -/
structure Sale where
  winner : Option UserId
  finalPrice : Option Money
  reserveMet : Option Bool
deriving DecidableEq, Repr

@[simps] def Auction.withSale (sale : Sale) (row : Auction) : Auction :=
  { row with winner := sale.winner, finalPrice := sale.finalPrice, reserveMet := sale.reserveMet }

/-- `Auction.is_biddable` at the time `t`. -/
def Auction.isBiddable (row : Auction) (t : Time) : Bool :=
  row.status == .live && (row.startTime ≤ t && t < row.endTime)

/-- A row of `AuctionStatusLog`. -/
structure StatusLog where
  fromStatus : Status
  toStatus : Status
  changedBy : Option UserId
  reason : String
deriving DecidableEq, Repr

inductive BidStatus where
  | accepted | invalidated
deriving DecidableEq, Repr

/-- A row of `Bid`. The bidder is named by the user behind the profile. -/
structure Bid where
  pk : Nat
  bidder : UserId
  amount : Money
  sequenceNo : Nat
  status : BidStatus
  invalidatedReason : String
  invalidatedBy : Option UserId
  invalidatedAt : Option Time
  createdAt : Time
deriving DecidableEq, Repr

inductive PaymentStatus where
  | pending | paid | failed | refunded
deriving DecidableEq, Repr

def PaymentStatus.value : PaymentStatus → String
  | pending => "PENDING" | paid => "PAID" | failed => "FAILED" | refunded => "REFUNDED"

/-- A row of `Payment`. -/
structure Payment where
  pk : Nat
  amount : Money
  status : PaymentStatus
  method : String
  reference : String
  notes : String
  recordedBy : Option UserId
  paidAt : Option Time
deriving DecidableEq, Repr

/-- `Dispute.Category`. -/
inductive Category where
  | nonPayment | notAsDescribed | notDelivered | bidIrregularity | other
deriving DecidableEq, Repr

def Category.ofValue : String → Option Category
  | "NON_PAYMENT" => some nonPayment
  | "NOT_AS_DESCRIBED" => some notAsDescribed
  | "NOT_DELIVERED" => some notDelivered
  | "BID_IRREGULARITY" => some bidIrregularity
  | "OTHER" => some other
  | _ => none

def Category.display : Category → String
  | nonPayment => "Payment not made or not received"
  | notAsDescribed => "Item not as described"
  | notDelivered => "Item not handed over"
  | bidIrregularity => "Suspicious or incorrect bidding"
  | other => "Other"

/-- `Dispute.Outcome`. -/
inductive Outcome where
  | upheld | dismissed
deriving DecidableEq, Repr

def Outcome.ofValue : String → Option Outcome
  | "UPHELD" => some upheld
  | "DISMISSED" => some dismissed
  | _ => none

/-- `get_outcome_display().lower()`. -/
def Outcome.lower : Outcome → String
  | upheld => "complaint upheld"
  | dismissed => "complaint dismissed"

/-- `Dispute.Status`. -/
inductive DisputeStatus where
  | opened | underReview | resolved
deriving DecidableEq, Repr

/-- `get_status_display().lower()`. -/
def DisputeStatus.lower : DisputeStatus → String
  | opened => "open"
  | underReview => "under review"
  | resolved => "resolved"

/-- A row of `Dispute`. A blank outcome is `none`. -/
structure Dispute where
  pk : Nat
  raisedBy : UserId
  category : Category
  description : String
  status : DisputeStatus
  auctionStatusBefore : Status
  assignedTo : Option UserId
  outcome : Option Outcome
  resolutionNotes : String
  refunded : Bool
  resolvedBy : Option UserId
  resolvedAt : Option Time
deriving DecidableEq, Repr

/-- `Dispute.is_active`: the status is one of `ACTIVE_STATUSES`. -/
def Dispute.isActive (d : Dispute) : Bool :=
  match d.status with
  | .opened | .underReview => true
  | .resolved => false

inductive Role where
  | admin | officer | seller | bidder
deriving DecidableEq, Repr

/-- A row of `User`. -/
structure User where
  username : String
  role : Role
  isStaff : Bool
  isActive : Bool
deriving DecidableEq, Repr

def User.isOfficerOrAdmin (u : User) : Bool :=
  u.role == .admin || u.role == .officer || u.isStaff

inductive VerificationStatus where
  | pending | verified | rejected
deriving DecidableEq, Repr

inductive AccountStatus where
  | active | suspended
deriving DecidableEq, Repr

/-- A row of `SellerProfile`. -/
structure SellerProfile where
  verificationStatus : VerificationStatus
  verifiedAt : Option Time
  verifiedBy : Option UserId
  updatedAt : Time
deriving DecidableEq, Repr

/-- A row of `BidderProfile`. -/
structure BidderProfile where
  verificationStatus : VerificationStatus
  accountStatus : AccountStatus
  verifiedAt : Option Time
  verifiedBy : Option UserId
  updatedAt : Time
deriving DecidableEq, Repr

/-- `BidderProfile.is_eligible_to_bid` of the profile of a user who is active or not. -/
def BidderProfile.isEligibleToBid (p : BidderProfile) (isActive : Bool) : Bool :=
  p.verificationStatus == .verified && p.accountStatus == .active && isActive

/-- One of the profiles of a user. -/
inductive ProfileRef where
  | seller (u : UserId)
  | bidder (u : UserId)
deriving DecidableEq, Repr

def ProfileRef.user : ProfileRef → UserId
  | seller u | bidder u => u

/-- A profile object. -/
inductive Profile where
  | seller (u : UserId) (row : SellerProfile)
  | bidder (u : UserId) (row : BidderProfile)
deriving DecidableEq, Repr

def Profile.ref : Profile → ProfileRef
  | seller u _ => .seller u
  | bidder u _ => .bidder u

/-- The object that an audit row or a notification names. -/
inductive ObjRef where
  | auction (a : AuctionId)
  | bid (a : AuctionId) (pk : Nat)
  | payment (a : AuctionId) (pk : Nat)
  | dispute (a : AuctionId) (pk : Nat)
  | sellerProfile (u : UserId)
  | bidderProfile (u : UserId)
deriving DecidableEq, Repr

def ProfileRef.obj : ProfileRef → ObjRef
  | seller u => .sellerProfile u
  | bidder u => .bidderProfile u

/-- `AuditLog.Action`. -/
inductive AuditAction where
  | userVerified | userSuspended | auctionCreated | auctionApproved | auctionRejected
  | auctionStarted | bidPlaced | bidInvalidated | auctionExtended | auctionClosed
  | winnerDetermined | auctionCancelled | auctionRescheduled | auctionPaused | auctionResumed
  | disputeCreated | disputeResolved | paymentPending | paymentReceived | paymentFailed
  | paymentRefunded
deriving DecidableEq, Repr

/-- A row of `AuditLog`. -/
structure AuditLog where
  actor : Option UserId
  action : AuditAction
  obj : ObjRef
  reason : String
deriving DecidableEq, Repr

/-- `Notification.Event`. -/
inductive NotificationEvent where
  | outbid | auctionWon | auctionLive | auctionClosedNoWinner | listingApproved | listingRejected
  | accountVerified | accountRejected | accountSuspended | accountReactivated | paymentReceived
  | paymentFailed | auctionRescheduled | auctionPaused | auctionResumed | auctionCancelled
  | disputeOpened | disputeResolved
deriving DecidableEq, Repr

/-- `Notification.Channel`. -/
inductive Channel where
  | inApp | email | sms
deriving DecidableEq, Repr

/-- A row of `Notification`. -/
structure Notification where
  pk : Nat
  recipient : UserId
  event : NotificationEvent
  channel : Channel
  title : String
  message : String
  obj : ObjRef
  link : String
deriving DecidableEq, Repr

end MbararaAuction
