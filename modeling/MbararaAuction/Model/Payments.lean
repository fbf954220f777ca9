import MbararaAuction.Model.Lifecycle

namespace MbararaAuction
open Transactions

/-- The key of the payment that the auction has afterwards, if it has one.
`auction` is the row as the caller holds it. -/
def createPendingPayment (a : AuctionId) (auction : Auction) : Prog (Option Nat) := do
  let existing ← Tx.query (fun s => ((s.dossier a).payments.map Payment.pk).head?)
  match existing, auction.winner, auction.finalPrice with
  | some pk, _, _ => pure (some pk)
  | none, some _, some price => do
    let payment ← createPayment a price
    record none .paymentPending (.payment a payment.pk) ""
    pure (some payment.pk)
  | none, _, _ => pure none

/-- A `Payment` as some earlier query returned it. `cachedAuction` is the row that
`select_related` fetched with it; without it `payment.auction` is a query. -/
structure LoadedPayment where
  auction : AuctionId
  row : Payment
  cachedAuction : Option Auction
deriving DecidableEq, Repr

def LoadedPayment.getAuction (payment : LoadedPayment) : Prog Auction :=
  match payment.cachedAuction with
  | some row => pure row
  | none => Tx.glance (fun s => (s.dossier payment.auction).row)

/-- The columns that `mark_paid` saves. -/
def Payment.paidWith (actor : UserId) (method reference notes : String) (t : Time) (p : Payment) :
    Payment :=
  { p with status := .paid, method := method, reference := reference, notes := notes,
           recordedBy := some actor, paidAt := some t }

@[simp] theorem paidWith_pk (actor : UserId) (method reference notes : String) (t : Time)
    (p : Payment) : (p.paidWith actor method reference notes t).pk = p.pk := rfl

def markPaid (payment : LoadedPayment) (actor : UserId) (method reference notes : String) :
    Prog Payment := do
  let a := payment.auction
  let pk := payment.row.pk
  Tx.refuse (payment.row.status ≠ .pending) (.valueError
    s!"Cannot mark payment #{pk} paid: current status is {payment.row.status.value}, not PENDING.")
  let t ← now
  -- The columns are varchar(50) and varchar(100).
  Tx.refuse (50 < method.length ∨ 100 < reference.length) .dataError
  savePayment a pk (Payment.paidWith actor method reference notes t)
  record (some actor) .paymentReceived (.payment a pk) ""
  let auction ← payment.getAuction
  Tx.when (auction.status = .closed) do
    let _ ← transition a .settled (some actor) "Payment recorded as received"
    pure ()
  let paid := payment.row.paidWith actor method reference notes t
  notifyPaymentReceived a auction paid
  pure paid

/-- The columns that `mark_failed` saves. -/
def Payment.failedWith (actor : UserId) (reason : String) (p : Payment) : Payment :=
  { p with status := .failed, notes := reason, recordedBy := some actor }

@[simp] theorem failedWith_pk (actor : UserId) (reason : String) (p : Payment) :
    (p.failedWith actor reason).pk = p.pk := rfl

/-- The save of `mark_failed`. The function is not atomic: this statement, the
audit row and the notification are committed one by one. -/
def savePaymentFailed (payment : LoadedPayment) (actor : UserId) (reason : String) : Prog Unit :=
  savePayment payment.auction payment.row.pk (Payment.failedWith actor reason)

def recordPaymentFailed (a : AuctionId) (pk : Nat) (actor : UserId) (reason : String) : Prog Unit :=
  record (some actor) .paymentFailed (.payment a pk) reason

/-- The columns that `mark_refunded` saves; `notes` are those of the loaded row. -/
def Payment.refundedWith (actor : UserId) (notes reason : String) (p : Payment) : Payment :=
  { p with status := .refunded, notes := strip s!"{notes}\nRefunded: {reason}",
           recordedBy := some actor }

@[simp] theorem refundedWith_pk (actor : UserId) (notes reason : String) (p : Payment) :
    (p.refundedWith actor notes reason).pk = p.pk := rfl

def markRefunded (a : AuctionId) (payment : Payment) (actor : UserId) (reason : String) :
    Prog Unit := do
  Tx.refuse (reason = "") (.valueError "A reason is required to mark a payment refunded.")
  Tx.refuse (payment.status ≠ .paid) (.valueError
    s!"Cannot refund payment #{payment.pk}: current status is {payment.status.value}, not PAID.")
  savePayment a payment.pk (Payment.refundedWith actor payment.notes reason)
  record (some actor) .paymentRefunded (.payment a payment.pk) reason

end MbararaAuction
