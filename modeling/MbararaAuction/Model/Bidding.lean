import MbararaAuction.Model.Payments

namespace MbararaAuction
open Transactions Queries

/-- `MAX_BID_AMOUNT`, in hundredths. -/
def maxBidAmount : Money := 100000000000000

/-- An amount that `_validate_amount` lets through: it fits the column exactly. -/
structure BidAmount where
  negative : Bool
  coefficient : Nat
  exponent : Int
  scale : -2 ≤ exponent
  bounded : cents negative coefficient exponent < maxBidAmount

def BidAmount.money (amount : BidAmount) : Money :=
  cents amount.negative amount.coefficient amount.exponent

def BidAmount.str (amount : BidAmount) : String :=
  Decimal.str amount.negative amount.coefficient amount.exponent

/-- `_validate_amount`. -/
def validateAmount (amount : Number) : Except PyError BidAmount :=
  let value := match amount with
    | .int n => some (Decimal.ofInt n)
    | .decimal d => some d
    | .bool _ | .other => none
  match value with
  | some (.finite negative coefficient exponent) =>
    if hs : -2 ≤ exponent then
      if hb : cents negative coefficient exponent < maxBidAmount then
        .ok ⟨negative, coefficient, exponent, hs, hb⟩
      else .error (.bidRejected "That bid amount is too large.")
    else .error (.bidRejected "Bid amounts can have at most 2 decimal places.")
  | _ => .error (.bidRejected "Enter a valid bid amount.")

def minimumPermitted (auction : Auction) : Money :=
  match auction.currentHighestBid with
  | some highest => highest + auction.minIncrement
  | none => auction.startingPrice

/-- One more than the greatest sequence number in use. -/
def nextSequence (bids : List Bid) : Nat :=
  ((firstBy (fun x y => decide (y < x)) (bids.map Bid.sequenceNo)).getD 0) + 1

/-- The end of the auction after a bid at the time `t`: inside the anti-sniping
window it moves. -/
def extendedEnd (auction : Auction) (t : Time) : Time :=
  let window := minutes auction.extensionMinutes
  if auction.extensionMinutes ≠ 0 ∧ auction.endTime - t ≤ window then t + window else auction.endTime

def placeBid (a : AuctionId) (bidderUser : UserId) (amount : Number) : Prog Bid := do
  let amount ← Tx.ofExcept (validateAmount amount)
  let locked ← lockedAuction a
  let t ← now
  Tx.refuse (locked.status ≠ .live ∨ ¬ (locked.startTime ≤ t ∧ t < locked.endTime))
    (.bidRejected "This auction is not currently open for bidding.")
  let profile ← Tx.glance (fun s => s.bidderProfiles bidderUser)
  let isActive ← Tx.glance (fun s => (s.users bidderUser).isActive)
  Tx.refuse (profile = none) (.bidRejected "Only registered bidders can place bids.")
  Tx.refuse ((profile.map (fun p => p.isEligibleToBid isActive)) ≠ some true) (.bidRejected
    "Your bidder account is not currently eligible to bid (verification or suspension).")
  Tx.refuse (bidderUser = locked.seller) (.bidRejected "Sellers cannot bid on their own auction.")
  let minimum := minimumPermitted locked
  Tx.refuse (amount.money < minimum)
    (.bidRejected s!"Your bid must be at least {moneyStr minimum}.")
  let bids ← Tx.query (fun s => (s.dossier a).bids)
  let bid ← createBid a bidderUser amount.money (nextSequence bids)
  let endTime := extendedEnd locked t
  Tx.when (locked.extensionMinutes ≠ 0 ∧ locked.endTime - t ≤ minutes locked.extensionMinutes)
    (record (some bidderUser) .auctionExtended (.auction a) "Bid received inside anti-sniping window")
  saveAuction a (.withBid amount.money endTime)
  record (some bidderUser) .bidPlaced (.bid a bid.pk) ""
  notifyOutbid a locked bid amount.str
  pure bid

/-- `order_by("-amount", "sequence_no")`. -/
def highestFirst (x y : Bid) : Bool :=
  y.amount < x.amount || (x.amount == y.amount && x.sequenceNo < y.sequenceNo)

def highestAccepted (bids : List Bid) : Option Bid := firstBy highestFirst (accepted bids)

/-- The columns that `invalidate_bid` saves. -/
def Bid.invalidatedWith (actor : UserId) (reason : String) (t : Time) (b : Bid) : Bid :=
  { b with status := .invalidated, invalidatedReason := reason, invalidatedBy := some actor,
           invalidatedAt := some t }

/-- The atomic block of `invalidate_bid`. -/
def invalidateBid (a : AuctionId) (pk : Nat) (actor : UserId) (reason : String) : Prog Unit := do
  let _ ← lockedAuction a
  let t ← now
  saveBid a pk (Bid.invalidatedWith actor reason t)
  let bids ← Tx.query (fun s => (s.dossier a).bids)
  saveAuction a (.withHighest ((highestAccepted bids).map Bid.amount))
  record (some actor) .bidInvalidated (.bid a pk) reason

/-- Whether the highest bid meets the reserve. -/
def reserveMetBy (auction : Auction) (highest : Bid) : Bool :=
  match auction.reservePrice with
  | some reserve => reserve ≤ highest.amount
  | none => true

/-- The local variables of `close_auction` once the highest bid is known. -/
def saleOf (auction : Auction) (highest : Option Bid) : Sale :=
  match highest with
  | none => ⟨none, none, none⟩
  | some b =>
    if reserveMetBy auction b then ⟨some b.bidder, some b.amount, some true⟩
    else ⟨none, none, some false⟩

def closeAuction (a : AuctionId) (actor : Option UserId) (reason : String) : Prog Auction := do
  let locked ← lockedAuction a
  Tx.refuse (locked.status ≠ .live) (.valueError
    s!"Cannot close auction #{a}: status is {locked.status.value}, not LIVE.")
  let bids ← Tx.query (fun s => (s.dossier a).bids)
  let sale := saleOf locked (highestAccepted bids)
  saveAuction a (.withSale sale)
  let closed ← transition a .closed actor reason
  match sale.winner with
  | some _ => do
    record actor .winnerDetermined (.auction a) ""
    notifyAuctionWon a closed
    let _ ← createPendingPayment a closed
    pure closed
  | none => do
    notifyAuctionClosedNoWinner a closed
    pure closed

/-- The default reason of `close_auction`. -/
def automatedClosing : String := "Automated closing at end_time"

end MbararaAuction
