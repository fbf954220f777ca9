import Mathlib.Data.List.Sort
import MbararaAuction.Model.Database

namespace MbararaAuction
open Transactions Queries

/-- The arguments of `notify`. -/
structure Notice where
  recipient : Option UserId
  event : NotificationEvent
  title : String
  message : String
  obj : ObjRef
  link : String

/-- `Notification.objects.create`. No caller of `notify` names another channel. -/
def createNotification (user : UserId) (n : Notice) : Prog Nat := do
  let pk ← Tx.draw
  Tx.update (fun s => { s with notifications :=
    s.notifications ++ [⟨pk, user, n.event, .inApp, n.title, n.message, n.obj, n.link⟩] })
  pure pk

/-- The row first, then `deliver_notification.delay`. Nobody is told nothing. -/
def notify (n : Notice) : Prog Unit :=
  match n.recipient with
  | none => pure ()
  | some user => do
    let pk ← createNotification user n
    Tx.send pk

/-- What `deliver_notification` logs. -/
inductive Delivery where
  | noLongerExists
  | deliveredInApp (username : String)
  | queued (event : NotificationEvent) (channel : Channel) (username : String)
deriving DecidableEq, Repr

/-- The worker's task: it reads the committed rows. -/
def deliverNotification (pk : Nat) (s : Database) : Delivery :=
  match s.notifications.find? (fun n => n.pk = pk) with
  | none => .noLongerExists
  | some n =>
    let username := (s.users n.recipient).username
    if n.channel = .inApp then .deliveredInApp username else .queued n.event n.channel username

def auctionLink (a : AuctionId) : String := s!"/auctions/{a}/"

/-- A notice about an auction. -/
def Notice.auction (a : AuctionId) (recipient : Option UserId) (event : NotificationEvent)
    (title message : String) : Notice :=
  ⟨recipient, event, title, message, .auction a, auctionLink a⟩

/-- The rows of `filter(status=ACCEPTED)`. -/
def accepted (bids : List Bid) : List Bid := bids.filter (fun b => b.status = .accepted)

/-- `order_by("-amount", "-sequence_no")`. -/
def latestHighestFirst (x y : Bid) : Bool :=
  y.amount < x.amount || (x.amount == y.amount && y.sequenceNo < x.sequenceNo)

/-- `amount` is the text of the new amount as the bidder wrote it. -/
def notifyOutbid (a : AuctionId) (auction : Auction) (bid : Bid) (amount : String) : Prog Unit := do
  let bids ← Tx.query (fun s => (s.dossier a).bids)
  match firstBy latestHighestFirst ((accepted bids).filter (fun b => b.pk ≠ bid.pk)) with
  | none => pure ()
  | some previousHighest =>
    if previousHighest.bidder = bid.bidder then pure () else
    notify (.auction a (some previousHighest.bidder) .outbid "You've been outbid"
      s!"Someone placed a higher bid of {amount} on '{auction.title}'.")

def notifyAuctionWon (a : AuctionId) (auction : Auction) : Prog Unit :=
  let price := (auction.finalPrice.map moneyStr).getD "None"
  notify (.auction a auction.winner .auctionWon "You won an auction!"
    s!"You won '{auction.title}' with a final price of {price}.")

def notifyAuctionClosedNoWinner (a : AuctionId) (auction : Auction) : Prog Unit :=
  notify (.auction a (some auction.seller) .auctionClosedNoWinner
    "Your auction closed with no winner"
    s!"'{auction.title}' closed without a winning bid (no bids met the reserve, or none were placed).")

def notifyAuctionLive (a : AuctionId) (auction : Auction) : Prog Unit :=
  notify (.auction a (some auction.seller) .auctionLive "Your auction is now live"
    s!"'{auction.title}' is now live and open for bidding.")

def notifyListingApproved (a : AuctionId) (auction : Auction) : Prog Unit :=
  notify (.auction a (some auction.seller) .listingApproved "Listing approved"
    s!"Your listing '{auction.title}' was approved and scheduled.")

/-- The ` Reason: ...` that some messages end with. -/
def reasonSuffix (reason : String) : String := if reason = "" then "" else s!" Reason: {reason}"

def notifyListingRejected (a : AuctionId) (auction : Auction) (reason : String) : Prog Unit :=
  notify { recipient := some auction.seller, event := .listingRejected, title := "Listing rejected"
           message := s!"Your listing '{auction.title}' was rejected." ++ reasonSuffix reason
           obj := .auction a, link := "" }

/-- `auction` is the row behind `payment.auction`. -/
def notifyPaymentReceived (a : AuctionId) (auction : Auction) (payment : Payment) : Prog Unit := do
  notify { recipient := auction.winner, event := .paymentReceived, title := "Payment recorded"
           message := s!"Your payment of {moneyStr payment.amount} for '{auction.title}' has been recorded as received."
           obj := .payment a payment.pk, link := auctionLink a }
  notify { recipient := some auction.seller, event := .paymentReceived
           title := "Payment received from buyer"
           message := s!"Payment of {moneyStr payment.amount} for '{auction.title}' has been recorded as received."
           obj := .payment a payment.pk, link := auctionLink a }

/-- What `notify_payment_failed` passes to `notify`. -/
def paymentFailedNotice (a : AuctionId) (auction : Auction) (pk : Nat) (reason : String) : Notice where
  recipient := auction.winner
  event := .paymentFailed
  title := "Payment issue on your winning bid"
  message := s!"The payment for '{auction.title}' was marked as failed." ++ reasonSuffix reason
  obj := .payment a pk
  link := auctionLink a

def notifyDisputeOpened (a : AuctionId) (auction : Auction) (dispute : Dispute) (recipient : UserId) :
    Prog Unit :=
  notify { recipient := some recipient, event := .disputeOpened, title := "Dispute raised"
           message := s!"A dispute ({dispute.category.display}) was raised on '{auction.title}'."
           obj := .dispute a dispute.pk, link := s!"/disputes/{dispute.pk}/" }

/-- `get_outcome_display().lower()` of a dispute: a blank outcome has a blank label. -/
def outcomeText (dispute : Dispute) : String := (dispute.outcome.map Outcome.lower).getD ""

def notifyDisputeResolved (a : AuctionId) (auction : Auction) (dispute : Dispute) (recipient : UserId) :
    Prog Unit :=
  notify { recipient := some recipient, event := .disputeResolved, title := "Dispute resolved"
           message := s!"The dispute on '{auction.title}' was resolved: {outcomeText dispute}."
           obj := .dispute a dispute.pk, link := s!"/disputes/{dispute.pk}/" }

/-- Setting a key of a dictionary: a new key comes last, an old one stays where it is. -/
def withKey (keys : List UserId) (u : UserId) : List UserId :=
  if u ∈ keys then keys else keys ++ [u]

theorem mem_withKey {keys : List UserId} {u x : UserId} : x ∈ withKey keys u ↔ x ∈ keys ∨ x = u := by
  unfold withKey
  split
  · next hu => exact ⟨.inl, fun h => h.elim id fun he => he ▸ hu⟩
  · simp

theorem withKey_grows (keys : List UserId) (u : UserId) : keys <+: withKey keys u := by
  unfold withKey
  split
  · exact List.prefix_refl keys
  · exact List.prefix_append keys [u]

theorem withKey_nodup {keys : List UserId} {u : UserId} (h : keys.Nodup) : (withKey keys u).Nodup := by
  unfold withKey
  split
  · exact h
  · next hu =>
    rw [← List.concat_eq_append, List.nodup_concat]
    exact ⟨hu, h⟩

section Keys
variable {keys users : List UserId}

theorem mem_keys {x : UserId} : x ∈ users.foldl withKey keys ↔ x ∈ keys ∨ x ∈ users := by
  induction users generalizing keys with
  | nil => simp
  | cons u users ih => rw [List.foldl_cons, ih, mem_withKey, List.mem_cons, or_assoc]

theorem keys_grow : keys <+: users.foldl withKey keys := by
  induction users generalizing keys with
  | nil => exact List.prefix_refl keys
  | cons u users ih => exact (withKey_grows keys u).trans ih

theorem keys_nodup (h : keys.Nodup) : (users.foldl withKey keys).Nodup := by
  induction users generalizing keys with
  | nil => exact h
  | cons u users ih => exact ih (withKey_nodup h)

end Keys

/-- The bids in the default order of their table. -/
def inSequence (bids : List Bid) : List Bid :=
  bids.insertionSort (fun x y => x.sequenceNo ≤ y.sequenceNo)

theorem mem_inSequence {bids : List Bid} {b : Bid} : b ∈ inSequence bids ↔ b ∈ bids :=
  List.mem_insertionSort _

/-- Later bids come last. -/
theorem inSequence_append {bids later : List Bid}
    (h : ∀ x ∈ bids, ∀ y ∈ later, x.sequenceNo < y.sequenceNo) :
    inSequence (bids ++ later) = inSequence bids ++ inSequence later :=
  insertionSort_append fun x hx y hy => (h x hx y hy).le

def notifyAuctionUpdate (a : AuctionId) (auction : Auction) (event : NotificationEvent)
    (title message : String) : Prog Unit := do
  let bids ← Tx.query (fun s => (s.dossier a).bids)
  let recipients := ((inSequence (accepted bids)).map Bid.bidder).foldl withKey [auction.seller]
  Tx.forEach recipients (fun user => notify (.auction a (some user) event title message))

end MbararaAuction
