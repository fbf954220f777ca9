import MbararaAuction.Model.Bidding

namespace MbararaAuction
open Transactions

/-- `DISPUTABLE_STATUSES`. -/
def disputable (status : Status) : Bool := status == .closed || status == .settled

/-- The keys of `auction_participants`. -/
def auctionParticipants (auction : Auction) (bids : List Bid) : List UserId :=
  let users := match auction.winner with
    | some winner => withKey [auction.seller] winner
    | none => [auction.seller]
  ((inSequence bids).map Bid.bidder).foldl withKey users

/-- `_staff_users`. -/
def staffUsers (s : Database) : List UserId :=
  s.userPks.filter (fun u => (s.users u).isOfficerOrAdmin && (s.users u).isActive)

/-- `_other_party`. -/
def otherParty (auction : Auction) (raisedBy : UserId) : Option UserId :=
  if raisedBy = auction.seller then auction.winner else some auction.seller

def withOther (recipients : List UserId) : Option UserId → List UserId
  | some other => withKey recipients other
  | none => recipients

/-- The first 500 characters. -/
def shortened (text : String) : String := String.ofList (text.toList.take 500)

/-- `disputes.filter(status__in=ACTIVE_STATUSES).exists()`. A dispute changes its
status under its own lock, so nothing protects what is read here. -/
def activeDisputeExists (a : AuctionId) : Prog Bool :=
  Tx.glance (fun s => (s.dossier a).disputes.any Dispute.isActive)

/-- `Dispute.objects.create` inside the `try` of `open_dispute`. -/
def createDispute (a : AuctionId) (raisedBy : UserId) (category : Category) (description : String)
    (before : Status) : Prog Dispute := do
  let pk ← nextPk a (fun d => d.disputes.map Dispute.pk)
  -- The index `one_active_dispute_per_auction`; the handler turns its error into this one.
  let clash ← activeDisputeExists a
  Tx.refuse (clash = true) (.valueError "This auction already has an active dispute.")
  let dispute : Dispute :=
    { pk := pk, raisedBy := raisedBy, category := category, description := description,
      status := .opened, auctionStatusBefore := before, assignedTo := none, outcome := none,
      resolutionNotes := "", refunded := false, resolvedBy := none, resolvedAt := none }
  insertDispute a dispute
  pure dispute

def openDispute (a : AuctionId) (raisedBy : UserId) (category description : String) :
    Prog Dispute := do
  Tx.refuse (strip description = "") (.valueError "Please describe the problem.")
  let category ← Tx.require (Category.ofValue category)
    (.valueError "Choose a valid dispute category.")
  let auction ← lockedAuction a
  Tx.refuse (disputable auction.status = false)
    (.valueError "Only closed or settled auctions can be disputed.")
  let bids ← Tx.query (fun s => (s.dossier a).bids)
  Tx.refuse (raisedBy ∉ auctionParticipants auction bids) (.permissionError
    "Only the seller, the winner or a bidder on this auction can raise a dispute.")
  let active ← activeDisputeExists a
  Tx.refuse (active = true) (.valueError "This auction already has an active dispute.")
  let dispute ← createDispute a raisedBy category (strip description) auction.status
  let _ ← transition a .disputed (some raisedBy) s!"Dispute #{dispute.pk} raised"
  record (some raisedBy) .disputeCreated (.dispute a dispute.pk) (shortened (strip description))
  let staff ← Tx.glance staffUsers
  let recipients := (withOther staff (otherParty auction raisedBy)).filter (fun u => u ≠ raisedBy)
  Tx.forEach recipients (notifyDisputeOpened a auction dispute)
  pure dispute

/-- The columns that `take_for_review` saves. -/
def Dispute.takenBy (actor : UserId) (d : Dispute) : Dispute :=
  { d with status := .underReview, assignedTo := some actor }

@[simp] theorem takenBy_pk (actor : UserId) (d : Dispute) : (d.takenBy actor).pk = d.pk := rfl

def takeForReview (a : AuctionId) (pk : Nat) (actor : UserId) : Prog Dispute := do
  let dispute ← lockedDispute a pk
  Tx.refuse (dispute.status ≠ .opened)
    (.valueError s!"Dispute #{pk} is {dispute.status.lower}, not open.")
  saveDispute a pk (Dispute.takenBy actor)
  pure (dispute.takenBy actor)

/-- The `if refund` block of `resolve_dispute`. -/
def refundFor (a : AuctionId) (pk : Nat) (actor : UserId) (notes : String) : Prog Unit := do
  let found ← Tx.glance (fun s => (s.dossier a).payments.head?)
  let payment ← Tx.require found (.valueError
    "A refund can only be recorded for a payment that has been marked paid.")
  Tx.refuse (payment.status ≠ .paid) (.valueError
    "A refund can only be recorded for a payment that has been marked paid.")
  markRefunded a payment actor s!"Dispute #{pk}: {notes}"

/-- The columns that `resolve_dispute` saves. -/
def Dispute.resolvedWith (actor : UserId) (outcome : Outcome) (notes : String) (refunded : Bool)
    (t : Time) (d : Dispute) : Dispute :=
  { d with status := .resolved, outcome := some outcome, resolutionNotes := notes,
           refunded := refunded, resolvedBy := some actor, resolvedAt := some t }

@[simp] theorem resolvedWith_pk (actor : UserId) (outcome : Outcome) (notes : String)
    (refunded : Bool) (t : Time) (d : Dispute) :
    (d.resolvedWith actor outcome notes refunded t).pk = d.pk := rfl

def resolveDispute (a : AuctionId) (pk : Nat) (actor : UserId) (outcome notes : String)
    (refund : Bool) : Prog Dispute := do
  let outcome ← Tx.require (Outcome.ofValue outcome)
    (.valueError "Choose an outcome for the dispute.")
  let notes := strip notes
  Tx.refuse (notes = "") (.valueError "Resolution notes are required.")
  let dispute ← lockedDispute a pk
  Tx.refuse (dispute.isActive = false) (.valueError s!"Dispute #{pk} is already resolved.")
  let auction ← Tx.glance (fun s => (s.dossier a).row)
  Tx.when (refund = true) (refundFor a pk actor notes)
  let _ ← transition a .closed (some actor) s!"Dispute #{pk} resolved"
  Tx.when (dispute.auctionStatusBefore = .settled ∧ refund = false) do
    let _ ← transition a .settled (some actor) s!"Restored after dispute #{pk}"
    pure ()
  let t ← now
  saveDispute a pk (Dispute.resolvedWith actor outcome notes refund t)
  let resolved := dispute.resolvedWith actor outcome notes refund t
  record (some actor) .disputeResolved (.dispute a pk) (shortened notes)
  let recipients := withOther [dispute.raisedBy] (otherParty auction dispute.raisedBy)
  Tx.forEach recipients (notifyDisputeResolved a auction resolved)
  pure resolved

end MbararaAuction
