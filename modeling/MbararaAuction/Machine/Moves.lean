import MbararaAuction.Model.Services

namespace MbararaAuction

/-- A transition of the state machine, in the row and in the log. -/
@[simps] def Dossier.entered (d : Dossier) (toStatus : Status) (actor : Option UserId)
    (reason : String) : Dossier :=
  { d with row := d.row.withStatus toStatus,
           logs := d.logs ++ [⟨d.row.status, toStatus, actor, reason⟩] }

/-- The statuses of an auction that was never closed. -/
def Status.beforeClose : Status → Bool
  | draft | submitted | approved | rejected | scheduled | live | paused | cancelled => true
  | closed | settled | completed | disputed => false

/-- What a mover may read without a lock: the dossier, and the clock. -/
structure View where
  row : Dossier → Dossier → Prop
  clock : Time → Prop

/-- Nothing protects an unlocked read. -/
def View.any : View := ⟨fun _ _ => True, fun _ => True⟩

/-- Nobody else is there, and the clock stands at `t`. -/
def View.alone (t : Time) : View := ⟨fun d e => e = d, fun u => u = t⟩

/-- What can happen to one auction. -/
inductive Action where
  | aside
  | enter (toStatus : Status)
  | reschedule
  | bid
  | invalidate (pk : Nat)
  | close
  | pay (payment : LoadedPayment)
  | fail (payment : LoadedPayment)
  | dispute
  | review (pk : Nat)
  | resolve (pk : Nat) (refund : Bool)
deriving DecidableEq

/-- The payments that a sale adds: one that is due, unless there is one already. -/
def Owed (sale : Sale) (payments owed : List Payment) : Prop :=
  match sale.winner, sale.finalPrice with
  | some _, some price =>
    if payments = [] then ∃ pk, owed = [Payment.due pk price] else owed = []
  | _, _ => owed = []

@[simps] def Dossier.addPayments (owed : List Payment) (d : Dossier) : Dossier :=
  { d with payments := d.payments ++ owed }

/-- The row that `payment.auction` may show. -/
def LoadedPayment.Shows (payment : LoadedPayment) (view : View) (d : Dossier) (row : Auction) : Prop :=
  match payment.cachedAuction with
  | some cached => row = cached
  | none => ∃ e, view.row d e ∧ row = e.row

/-- A refund marks the payment that was read as paid. -/
def Refunds (view : View) (refund : Bool) (d d' : Dossier) : Prop :=
  if refund then ∃ e p actor reason, view.row d e ∧ e.payments.head? = some p ∧ p.status = .paid ∧
    d' = d.onPayment p.pk (.refundedWith actor p.notes reason)
  else d' = d

/-- Where the resolution of the dispute `x` leaves the auction. -/
def Dossier.returned (x : Dispute) (refund : Bool) (actor : UserId) (reason restored : String)
    (d : Dossier) : Dossier :=
  let back := d.entered .closed (some actor) reason
  if x.auctionStatusBefore = .settled ∧ refund = false then
    back.entered .settled (some actor) restored
  else back

/-- The life of one auction: every change that a service can make to its dossier. -/
inductive Move (view : View) : Action → Dossier → Dossier → Prop where
  | aside {d} : Move view .aside d d
  | enter {d toStatus actor reason} (allowed : toStatus ∈ allowedTransitions d.row.status)
      (early : toStatus.beforeClose) (still : toStatus ≠ .live)
      (reasoned : toStatus = .rejected → reason ≠ "") :
      Move view (.enter toStatus) d (d.entered toStatus actor reason)
  | activate {d actor reason} (allowed : .live ∈ allowedTransitions d.row.status) :
      Move view (.enter .live) d (d.entered .live actor reason)
  | resume {d t actor reason} (paused : d.row.status = .paused) (time : view.clock t)
      (unended : t < d.row.endTime) : Move view (.enter .live) d (d.entered .live actor reason)
  | start {d t actor reason} (scheduled : d.row.status = .scheduled) (time : view.clock t)
      (unended : t < d.row.endTime) :
      Move view (.enter .live) d ((d.onRow (.withStart (min d.row.startTime t))).entered .live
        actor reason)
  | reschedule {d startTime endTime} (open_ : schedulable d.row.status)
      (started : d.row.status ≠ .scheduled → startTime = d.row.startTime)
      (extended : d.row.status = .live → d.row.endTime ≤ endTime) (ordered : startTime < endTime) :
      Move view .reschedule d (d.onRow (.withTimes startTime endTime))
  | bid {d b t} (live : d.row.status = .live) (time : view.clock t)
      (window : d.row.startTime ≤ t ∧ t < d.row.endTime) (outsider : b.bidder ≠ d.row.seller)
      (enough : minimumPermitted d.row ≤ b.amount) (positive : 0 < b.amount)
      (next : b.sequenceNo = nextSequence d.bids) (standing : b.status = .accepted)
      (fresh : b.pk ∉ d.bids.map Bid.pk) :
      Move view .bid d ((d.addBid b).onRow (.withBid b.amount (extendedEnd d.row t)))
  | invalidate {d pk actor reason t} :
      Move view (.invalidate pk) d ((d.onBid pk (.invalidatedWith actor reason t)).onRow (.withHighest
        ((highestAccepted (d.onBid pk (.invalidatedWith actor reason t)).bids).map Bid.amount)))
  | close {d actor reason owed} (live : d.row.status = .live)
      (owes : Owed (saleOf d.row (highestAccepted d.bids)) d.payments owed) :
      Move view .close d (((d.onRow (.withSale (saleOf d.row (highestAccepted d.bids)))).entered .closed
        actor reason).addPayments owed)
  | pay {d row payment actor method reference notes t} (pending : payment.row.status = .pending)
      (shown : payment.Shows view
        (d.onPayment payment.row.pk (.paidWith actor method reference notes t)) row)
      (elsewhere : row.status ≠ .closed) :
      Move view (.pay payment) d
        (d.onPayment payment.row.pk (.paidWith actor method reference notes t))
  | settle {d payment actor method reference notes t reason}
      (pending : payment.row.status = .pending) (closed : d.row.status = .closed) :
      Move view (.pay payment) d
        ((d.onPayment payment.row.pk (.paidWith actor method reference notes t)).entered .settled
          (some actor) reason)
  | fail {d payment actor reason} :
      Move view (.fail payment) d (d.onPayment payment.row.pk (.failedWith actor reason))
  | dispute {d e x actor reason} (disputable : disputable d.row.status) (seen : view.row d e)
      (clear : e.disputes.any Dispute.isActive = false) (opened : x.status = .opened)
      (before : x.auctionStatusBefore = d.row.status) (fresh : x.pk ∉ d.disputes.map Dispute.pk)
      (unrefunded : x.refunded = false) :
      Move view .dispute d ((d.addDispute x).entered .disputed actor reason)
  | review {d x pk actor} (found : d.disputes.find? (fun y => y.pk = pk) = some x)
      (opened : x.status = .opened) :
      Move view (.review pk) d (d.onDispute pk (.takenBy actor))
  | resolve {d d' x pk refund actor reason restored outcome notes t}
      (found : d.disputes.find? (fun y => y.pk = pk) = some x) (active : x.isActive)
      (refunds : Refunds view refund d d') (closes : .closed ∈ allowedTransitions d.row.status) :
      Move view (.resolve pk refund) d
        ((d'.returned x refund actor reason restored).onDispute pk
          (.resolvedWith actor outcome notes refund t))

/-- The auction that a transaction is about. -/
def ServiceTx.target : ServiceTx → Option AuctionId
  | submitForReview a _ | approve a _ _ | autoSchedule a _ | reject a _ _ | activate a _
  | startNow a _ | reschedule a _ _ _ _ | pause a _ _ | resume a _ | cancelAuction a _ _
  | endNow a _ _ | placeBid a _ _ | invalidateBid a _ _ _ | recordPaymentFailed a _ _ _
  | openDispute a _ _ _ | takeForReview a _ _ | resolveDispute a _ _ _ _ _ => some a
  | closeAuction auction _ => some auction.pk
  | markPaid payment _ _ _ _ | savePaymentFailed payment _ _ => some payment.auction
  | createNotification _ _ | deliver _ | saveVerification _ _ _ | saveAccountStatus _ _ _
  | recordProfile _ _ _ _ => Option.none

/-- What a transaction does to that auction. -/
def ServiceTx.action : ServiceTx → Action
  | submitForReview _ _ => .enter .submitted
  | approve _ _ _ => .enter .approved
  | autoSchedule _ _ => .enter .scheduled
  | reject _ _ _ => .enter .rejected
  | activate _ _ | startNow _ _ | resume _ _ => .enter .live
  | reschedule _ _ _ _ _ => .reschedule
  | pause _ _ _ => .enter .paused
  | cancelAuction _ _ _ => .enter .cancelled
  | endNow _ _ _ | closeAuction _ _ => .close
  | placeBid _ _ _ => .bid
  | invalidateBid _ pk _ _ => .invalidate pk
  | markPaid payment _ _ _ _ => .pay payment
  | savePaymentFailed payment _ _ => .fail payment
  | recordPaymentFailed _ _ _ _ | createNotification _ _ | deliver _ | saveVerification _ _ _
  | saveAccountStatus _ _ _ | recordProfile _ _ _ _ => .aside
  | openDispute _ _ _ _ => .dispute
  | takeForReview _ pk _ => .review pk
  | resolveDispute _ pk _ _ _ refund => .resolve pk refund

/-- What a listing fixes before it is submitted. -/
structure Listing where
  seller : UserId
  category : Nat
  title : String
  description : String
  location : String
  startingPrice : Money
  reservePrice : Option Money
  minIncrement : Money
  extensionMinutes : Nat
deriving DecidableEq, Repr

def Auction.listing (row : Auction) : Listing where
  seller := row.seller
  category := row.category
  title := row.title
  description := row.description
  location := row.location
  startingPrice := row.startingPrice
  reservePrice := row.reservePrice
  minIncrement := row.minIncrement
  extensionMinutes := row.extensionMinutes

section Frames
variable {view : View} {d d' : Dossier} {refund : Bool}

theorem returned_row (x : Dispute) (actor : UserId) (reason restored : String) :
    (d.returned x refund actor reason restored).row =
      d.row.withStatus
        (if x.auctionStatusBefore = .settled ∧ refund = false then .settled else .closed) := by
  unfold Dossier.returned
  split <;> rfl

theorem returned_bids (x : Dispute) (actor : UserId) (reason restored : String) :
    (d.returned x refund actor reason restored).bids = d.bids := by
  unfold Dossier.returned
  split <;> rfl

theorem returned_payments (x : Dispute) (actor : UserId) (reason restored : String) :
    (d.returned x refund actor reason restored).payments = d.payments := by
  unfold Dossier.returned
  split <;> rfl

theorem returned_disputes (x : Dispute) (actor : UserId) (reason restored : String) :
    (d.returned x refund actor reason restored).disputes = d.disputes := by
  unfold Dossier.returned
  split <;> rfl

/-- A refund touches nothing but the payments. -/
theorem Refunds.frame (h : Refunds view refund d d') :
    d'.row = d.row ∧ d'.bids = d.bids ∧ d'.logs = d.logs ∧ d'.disputes = d.disputes := by
  unfold Refunds at h
  split at h
  · obtain ⟨_, _, _, _, _, _, _, rfl⟩ := h
    exact ⟨rfl, rfl, rfl, rfl⟩
  · subst h
    exact ⟨rfl, rfl, rfl, rfl⟩

/-- No move changes the listing. -/
theorem Move.listing {act : Action} (h : Move view act d d') : d'.row.listing = d.row.listing := by
  cases h with
  | resolve found active refunds closes =>
    rw [Dossier.onDispute_row, returned_row, refunds.frame.1]
    rfl
  | _ => rfl

end Frames

end MbararaAuction
